import DericRpc.Lib.Lts
import Mathlib.Data.List.Nodup

/-! Things that are open and the holders that can close them. A thing that is open and that nobody
holds is never closed. -/
namespace DericRpc.Custody
open Lts
variable {S A H K : Type*} (holds : S → H → K → Prop) (isOpen : S → K → Prop)

/-- What is held is open, and has one holder. -/
structure Sound (u : S) : Prop where
  isOpen : ∀ h k, holds u h k → isOpen u k
  unique : ∀ h j k, holds u h k → holds u j k → h = j

/-- Open, and nobody's. -/
def Loose (u : S) (k : K) : Prop := isOpen u k ∧ ∀ h, ¬holds u h k

/-- What is held afterwards was held before, or has been opened for its holder alone; and what was
open is open still, unless its holder has given it up. -/
structure Passes (u v : S) : Prop where
  held : ∀ h k, holds v h k → holds u h k ∨ ¬isOpen u k ∧ isOpen v k ∧
    ∀ j, holds v j k → holds u j k ∨ j = h
  opened : ∀ k, isOpen u k → isOpen v k ∨ ∃ h, holds u h k ∧ ¬holds v h k

/-- A change that opens nothing for a holder. -/
structure Releases (u v : S) : Prop where
  held : ∀ h k, holds v h k → holds u h k
  opened : ∀ k, isOpen u k → isOpen v k ∨ ∃ h, holds u h k ∧ ¬holds v h k

variable {holds isOpen} {u v w s t : S} {k : K}

theorem Releases.refl (u : S) : Releases holds isOpen u u := ⟨fun _ _ h => h, fun _ h => .inl h⟩

theorem Releases.trans (h : Releases holds isOpen u v) (h' : Releases holds isOpen v w) :
    Releases holds isOpen u w := by
  refine ⟨fun j k hw => h.held j k (h'.held j k hw), fun k hu => ?_⟩
  obtain hv | ⟨j, hj, hnot⟩ := h.opened k hu
  · obtain hw | ⟨j, hj, hnot⟩ := h'.opened k hv
    · exact .inl hw
    · exact .inr ⟨j, h.held j k hj, hnot⟩
  · exact .inr ⟨j, hj, fun hw => hnot (h'.held j k hw)⟩

theorem Releases.passes (h : Releases holds isOpen u v) : Passes holds isOpen u v :=
  ⟨fun j k hv => .inl (h.held j k hv), h.opened⟩

theorem Passes.sound (h : Passes holds isOpen u v) (hu : Sound holds isOpen u) :
    Sound holds isOpen v where
  isOpen j k hv := by
    obtain hj | ⟨-, hopen, -⟩ := h.held j k hv
    · obtain hopen | ⟨i, hi, hnot⟩ := h.opened k (hu.isOpen j k hj)
      · exact hopen
      · rw [hu.unique i j k hi hj] at hnot
        exact absurd hv hnot
    · exact hopen
  unique j i k hj hi := by
    obtain hold | ⟨hnew, -, honly⟩ := h.held j k hj
    · obtain hold' | ⟨hnew, -, -⟩ := h.held i k hi
      · exact hu.unique j i k hold hold'
      · exact absurd (hu.isOpen j k hold) hnew
    · obtain hold' | rfl := honly i hi
      · exact absurd (hu.isOpen i k hold') hnew
      · rfl

theorem Passes.loose (h : Passes holds isOpen u v) (hu : Loose holds isOpen u k) :
    Loose holds isOpen v k := by
  obtain ⟨hopen, hnone⟩ := hu
  refine ⟨?_, fun j hj => ?_⟩
  · obtain hv | ⟨j, hj, -⟩ := h.opened k hopen
    · exact hv
    · exact absurd hj (hnone j)
  · obtain hold | ⟨hnew, -⟩ := h.held j k hj
    · exact hnone j hold
    · exact hnew hopen

/-- What the steps of a run leave open and to nobody, each having found it closed, is all
different and all open in the end. -/
theorem left_open {step : S → A → Option S} {left : Move S A → Option K} {ms : List (Move S A)}
    (hpass : ∀ u a v, Sound holds isOpen u → step u a = some v → Passes holds isOpen u v)
    (hleft : ∀ u a v k, Sound holds isOpen u → step u a = some v → left ⟨u, a, v⟩ = some k →
      ¬isOpen u k ∧ Loose holds isOpen v k)
    (hs : Sound holds isOpen s) (h : Path step s ms t) :
    (ms.filterMap left).Nodup ∧ ∀ k ∈ ms.filterMap left, Loose holds isOpen t k := by
  induction h with
  | nil => exact ⟨List.nodup_nil, List.forall_mem_nil _⟩
  | @snoc ms u v a hp hu ih =>
    have hsound : Sound holds isOpen u :=
      hp.invariant hs fun u a v hi hstep => (hpass u a v hi hstep).sound hi
    obtain ⟨hnodup, hloose⟩ := ih
    have hpassed := hpass u a v hsound hu
    have hkept (k : K) (hk : k ∈ ms.filterMap left) : Loose holds isOpen v k :=
      hpassed.loose (hloose k hk)
    rw [List.filterMap_append]
    cases hnew : left ⟨u, a, v⟩ with
    | none =>
      rw [List.filterMap_cons_none hnew, List.filterMap_nil, List.append_nil]
      exact ⟨hnodup, hkept⟩
    | some k =>
      obtain ⟨hclosed, hlast⟩ := hleft u a v k hsound hu hnew
      have hother : k ∉ ms.filterMap left := fun hk => hclosed (hloose k hk).1
      rw [List.filterMap_cons_some hnew, List.filterMap_nil]
      refine ⟨hnodup.append (List.nodup_singleton k) ?_, fun j hj => ?_⟩
      · exact List.disjoint_singleton.mpr hother
      · obtain hj | hj := List.mem_append.mp hj
        · exact hkept j hj
        · rwa [List.mem_singleton.mp hj]

end DericRpc.Custody
