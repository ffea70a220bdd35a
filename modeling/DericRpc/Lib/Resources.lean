import Mathlib.Logic.Function.Basic

/-! Resources that are obtained under a number and given back by it, where numbers come round
again: the ledger tells which resource had a number last and how often each was closed. -/
namespace DericRpc.Resources

/-- Resources are counted from 0; `latest` is the one that got the number last, if that is a
counted one. -/
structure Ledger (K : Type*) where
  count : Nat := 0
  number : Nat → Option K := fun _ => none
  closes : Nat → Nat := fun _ => 0
  latest : K → Option Nat := fun _ => none

variable {K : Type*} [DecidableEq K]

def Ledger.obtain (l : Ledger K) (k : K) : Ledger K :=
  { l with
    count := l.count + 1
    number := Function.update l.number l.count (some k)
    latest := Function.update l.latest k (some l.count) }

/-- The number goes to something that is not counted. -/
def Ledger.forget (l : Ledger K) (k : K) : Ledger K :=
  { l with latest := Function.update l.latest k none }

def Ledger.close (l : Ledger K) (k : K) : Ledger K :=
  match l.latest k with
  | none => l
  | some n => { l with closes := Function.update l.closes n (l.closes n + 1) }

/-- The resource has its number and was not closed. -/
structure Open (l : Ledger K) (n : Nat) (k : K) : Prop where
  number : l.number n = some k
  latest : l.latest k = some n
  closes : l.closes n = 0

structure Sound (l : Ledger K) : Prop where
  number : ∀ n k, l.number n = some k → n < l.count
  latest : ∀ n k, l.latest k = some n → l.number n = some k
  closes : ∀ n, l.number n = none → l.closes n = 0

variable {l : Ledger K} {n m : Nat} {k j : K}

omit [DecidableEq K] in
theorem sound_empty : Sound ({} : Ledger K) := ⟨nofun, nofun, fun _ _ => rfl⟩

omit [DecidableEq K] in
theorem Sound.fresh (h : Sound l) : l.number l.count = none := by
  cases hn : l.number l.count with
  | none => rfl
  | some k => exact absurd (h.number _ k hn) (Nat.lt_irrefl _)

omit [DecidableEq K] in
theorem Open.unique (h : Open l n k) (h' : Open l m k) : n = m :=
  Option.some.inj (h.latest.symm.trans h'.latest)

theorem Sound.obtain (h : Sound l) (k : K) : Sound (l.obtain k) where
  number n j hn := by
    by_cases he : n = l.count
    · exact he ▸ Nat.lt_succ_self _
    · exact Nat.lt_succ_of_lt (h.number n j (by simpa [Ledger.obtain, he] using hn))
  latest n j hn := by
    by_cases hj : j = k
    · obtain rfl : l.count = n := by simpa [Ledger.obtain, hj] using hn
      simp [Ledger.obtain, hj]
    · have hold := h.latest n j (by simpa [Ledger.obtain, hj] using hn)
      have he : n ≠ l.count := Nat.ne_of_lt (h.number n j hold)
      simpa [Ledger.obtain, he] using hold
  closes n hn := by
    by_cases he : n = l.count
    · exact h.closes n (he ▸ h.fresh)
    · exact h.closes n (by simpa [Ledger.obtain, he] using hn)

theorem Sound.forget (h : Sound l) (k : K) : Sound (l.forget k) where
  number := h.number
  latest n j hn := by
    by_cases hj : j = k
    · simp [Ledger.forget, hj] at hn
    · exact h.latest n j (by simpa [Ledger.forget, hj] using hn)
  closes := h.closes

theorem open_obtain (h : Sound l) : Open (l.obtain k) l.count k where
  number := Function.update_self ..
  latest := Function.update_self ..
  closes := h.closes _ h.fresh

theorem Open.obtain (h : Open l n j) (hs : Sound l) (hj : j ≠ k) : Open (l.obtain k) n j where
  number := by
    have hn : n ≠ l.count := Nat.ne_of_lt (hs.number n j h.number)
    simpa [Ledger.obtain, hn] using h.number
  latest := by simpa [Ledger.obtain, hj] using h.latest
  closes := h.closes

theorem Open.forget (h : Open l n j) (hj : j ≠ k) : Open (l.forget k) n j where
  number := h.number
  latest := by simpa [Ledger.forget, hj] using h.latest
  closes := h.closes

omit [DecidableEq K] in
theorem close_of_none (h : l.latest k = none) : l.close k = l := by
  simp [Ledger.close, h]

omit [DecidableEq K] in
theorem Open.close_eq (h : Open l n k) :
    l.close k = { l with closes := Function.update l.closes n 1 } := by
  simp [Ledger.close, h.latest, h.closes]

omit [DecidableEq K] in
theorem Sound.close (h : Sound l) (hn : Open l n k) : Sound (l.close k) := by
  rw [hn.close_eq]
  refine ⟨h.number, h.latest, fun m hm => ?_⟩
  have hne : m ≠ n := fun he => by
    rw [he, hn.number] at hm
    cases hm
  simpa [hne] using h.closes m hm

omit [DecidableEq K] in
theorem Open.close (h : Open l m j) (hn : Open l n k) (hne : m ≠ n) : Open (l.close k) m j := by
  rw [hn.close_eq]
  exact ⟨h.number, h.latest, by simpa [hne] using h.closes⟩

end DericRpc.Resources
