import DericRpc.Lib.Lts
import Mathlib.Logic.Function.Basic

/-! Threads that run operations with nested locks. Where every operation takes mutexes of
rising rank only, no set of threads ever waits for itself. -/
namespace DericRpc.Locks
open Lts

/-- What the code of an operation does with mutexes: `locked` gives its mutex back at the
end, `leak` never does; `wait` is a wait on a condition variable, which gives the mutex up
meanwhile; `user` is foreign code, which may run any operations. -/
inductive Code (M O : Type) where
  | skip
  | seq (a b : Code M O)
  | choice (a b : Code M O)
  | pick (f : Nat → Code M O)
  | loop (a : Code M O)
  | locked (m : M) (a : Code M O)
  | leak (m : M)
  | wait (m : M)
  | call (o : O)
  | user

/-- One after the other. -/
def Code.all {M O : Type} : List (Code M O) → Code M O
  | [] => .skip
  | c :: cs => .seq c (Code.all cs)

/-- A branch that may not be taken. -/
def Code.opt {M O : Type} (a : Code M O) : Code M O := .choice a .skip

/-- What is still to do, innermost first: code to run, mutexes to unlock. -/
inductive Frame (M O : Type) where
  | code (c : Code M O)
  | unlock (m : M)

/-- A thread that waits on a condition variable has to lock its mutex anew once woken. -/
inductive Mode (M : Type) where
  | running
  | asleep (m : M)
  | woken (m : M)

structure Thread (M O : Type) where
  mode : Mode M
  stack : List (Frame M O)

structure State (M O : Type) where
  threads : Nat → Thread M O
  owner : M → Option Nat

inductive Choice (O : Type) where
  | go
  | left
  | right
  | pick (i : Nat)
  | op (o : O)

inductive Effect (M : Type) where
  | none
  | take (m : M)
  | give (m : M)

variable {M O : Type}

def runCode (body : O → Code M O) (k : List (Frame M O)) :
    Code M O → Choice O → Option (Thread M O × Effect M)
  | .skip, .go => some (⟨.running, k⟩, .none)
  | .seq a b, .go => some (⟨.running, .code a :: .code b :: k⟩, .none)
  | .choice a _, .left => some (⟨.running, .code a :: k⟩, .none)
  | .choice _ b, .right => some (⟨.running, .code b :: k⟩, .none)
  | .pick f, .pick i => some (⟨.running, .code (f i) :: k⟩, .none)
  | .loop a, .left => some (⟨.running, .code a :: .code (.loop a) :: k⟩, .none)
  | .loop _, .right => some (⟨.running, k⟩, .none)
  | .locked m a, .go => some (⟨.running, .code a :: .unlock m :: k⟩, .take m)
  | .leak m, .go => some (⟨.running, k⟩, .take m)
  | .wait m, .go => some (⟨.asleep m, k⟩, .give m)
  | .call o, .go => some (⟨.running, .code (body o) :: k⟩, .none)
  | .user, .op o => some (⟨.running, .code (.call o) :: .code .user :: k⟩, .none)
  | .user, .right => some (⟨.running, k⟩, .none)
  | _, _ => none

def Thread.step (body : O → Code M O) (th : Thread M O) (x : Choice O) :
    Option (Thread M O × Effect M) :=
  match th.mode with
  | .asleep m => some (⟨.woken m, th.stack⟩, .none)
  | .woken m => some (⟨.running, th.stack⟩, .take m)
  | .running =>
    match th.stack with
    | [] => none
    | .unlock m :: k => some (⟨.running, k⟩, .give m)
    | .code c :: k => runCode body k c x

section
variable [DecidableEq M]

/-- A mutex is only taken while no thread owns it, not even the same one. -/
def State.apply (s : State M O) (t : Nat) (th : Thread M O) : Effect M → Option (State M O)
  | .none => some { s with threads := Function.update s.threads t th }
  | .take m =>
    if s.owner m = none then
      some ⟨Function.update s.threads t th, Function.update s.owner m (some t)⟩
    else none
  | .give m => some ⟨Function.update s.threads t th, Function.update s.owner m none⟩

def step (body : O → Code M O) (s : State M O) (a : Nat × Choice O) : Option (State M O) :=
  ((s.threads a.1).step body a.2).bind fun (th, e) => s.apply a.1 th e

end

/-- Every thread runs operations of its choice. -/
def start : State M O := ⟨fun _ => ⟨.running, [.code .user]⟩, fun _ => none⟩

/-- The thread is at a lock of the mutex, or has to lock it after a wait. -/
def Thread.WaitsFor (th : Thread M O) (m : M) : Prop :=
  th.mode = .woken m ∨ th.mode = .running ∧
    ∃ k, th.stack = .code (.leak m) :: k ∨ ∃ a, th.stack = .code (.locked m a) :: k

/-- The thread is about to take a mutex that it will never unlock. -/
def Leaks (s : State M O) (t : Nat) : Prop :=
  ∃ m k, (s.threads t).mode = .running ∧ (s.threads t).stack = .code (.leak m) :: k

/-- Threads of the set wait for mutexes that threads of the set own. -/
def Deadlocked (s : State M O) (W : Nat → Prop) : Prop :=
  (∃ t, W t) ∧
    ∀ t, W t → ∃ m, (s.threads t).WaitsFor m ∧ ∃ u, W u ∧ s.owner m = some u

/-- Below `n` are the ranks of the mutexes held so far, `inner` is the one locked last by
the operation itself. Foreign code runs with no mutex held. -/
def Code.Ordered (rank : M → Nat) (level : O → Nat) (n : Nat) (inner : Option M) :
    Code M O → Prop
  | .skip => True
  | .seq a b => a.Ordered rank level n inner ∧ b.Ordered rank level n inner
  | .choice a b => a.Ordered rank level n inner ∧ b.Ordered rank level n inner
  | .pick f => ∀ i, (f i).Ordered rank level n inner
  | .loop a => a.Ordered rank level n inner
  | .locked m a => n ≤ rank m ∧ a.Ordered rank level (rank m + 1) (some m)
  | .leak m => n ≤ rank m
  | .wait m => inner = some m
  | .call o => n ≤ level o
  | .user => n = 0

/-- Operations whose code keeps to an order of the mutexes. An operation locks nothing below
its level. -/
structure Discipline (M O : Type) where
  body : O → Code M O
  rank : M → Nat
  height : Nat
  rank_lt : ∀ m, rank m < height
  level : O → Nat
  ordered : ∀ o, (body o).Ordered rank level (level o) none

def held : List (Frame M O) → List M
  | [] => []
  | .code _ :: k => held k
  | .unlock m :: k => m :: held k

def limit (rank : M → Nat) : List M → Nat
  | [] => 0
  | m :: _ => rank m + 1

def Typed (rank : M → Nat) (level : O → Nat) : List (Frame M O) → Prop
  | [] => True
  | .code c :: k =>
    c.Ordered rank level (limit rank (held k)) (held k).head? ∧ Typed rank level k
  | .unlock m :: k => limit rank (held k) ≤ rank m ∧ Typed rank level k

/-- The mutexes that the thread owns: all it has to unlock, but for one it waits on. -/
def Thread.owned (th : Thread M O) : List M :=
  match th.mode with
  | .running => held th.stack
  | .asleep _ | .woken _ => (held th.stack).tail

structure Thread.Typed (rank : M → Nat) (level : O → Nat) (th : Thread M O) : Prop where
  stack : Locks.Typed rank level th.stack
  mode : ∀ m, th.mode = .asleep m ∨ th.mode = .woken m → (held th.stack).head? = some m

section
variable {rank : M → Nat} {level : O → Nat}

theorem Code.Ordered.mono {c : Code M O} {n n' : Nat} {inner : Option M}
    (h : c.Ordered rank level n none) (hn : n' ≤ n) : c.Ordered rank level n' inner := by
  induction c with
  | skip => trivial
  | seq a b iha ihb => exact ⟨iha h.1, ihb h.2⟩
  | choice a b iha ihb => exact ⟨iha h.1, ihb h.2⟩
  | pick f ih => exact fun i => ih i (h i)
  | loop a ih => exact ih h
  | locked m a => exact ⟨Nat.le_trans hn h.1, h.2⟩
  | leak m => exact Nat.le_trans hn h
  | wait m => cases h
  | call o => exact Nat.le_trans hn h
  | user => exact Nat.eq_zero_of_le_zero (Nat.le_trans hn (Nat.le_of_eq h))

theorem rank_lt_limit {k : List (Frame M O)} (h : Typed rank level k) :
    ∀ m ∈ held k, rank m < limit rank (held k) := by
  induction k with
  | nil => exact fun _ hm => nomatch hm
  | cons f k ih =>
    cases f with
    | code c => exact ih h.2
    | unlock m =>
      intro x hx
      rcases List.mem_cons.mp hx with rfl | hx
      · exact Nat.lt_succ_self _
      · exact Nat.lt_succ_of_lt (Nat.lt_of_lt_of_le (ih h.2 x hx) h.1)

theorem held_sorted {k : List (Frame M O)} (h : Typed rank level k) {m : M} {l : List M}
    (hk : held k = m :: l) : ∀ x ∈ l, rank x < rank m := by
  induction k with
  | nil => cases hk
  | cons f k ih =>
    cases f with
    | code c => exact ih h.2 hk
    | unlock m' =>
      obtain ⟨rfl, rfl⟩ := List.cons.inj hk
      exact fun x hx => Nat.lt_of_lt_of_le (rank_lt_limit h.2 x hx) h.1

theorem held_nodup {k : List (Frame M O)} (h : Typed rank level k) : (held k).Nodup := by
  induction k with
  | nil => exact List.nodup_nil
  | cons f k ih =>
    cases f with
    | code c => exact ih h.2
    | unlock m =>
      refine List.nodup_cons.mpr ⟨fun hm => ?_, ih h.2⟩
      exact Nat.lt_irrefl _ (Nat.lt_of_lt_of_le (rank_lt_limit h.2 m hm) h.1)

theorem Thread.owned_nodup {th : Thread M O} (h : th.Typed rank level) : th.owned.Nodup := by
  have hheld := held_nodup h.stack
  unfold Thread.owned
  cases th.mode with
  | running => exact hheld
  | asleep m => exact hheld.tail
  | woken m => exact hheld.tail

/-- What a thread owns is below what it waits for. -/
theorem Thread.WaitsFor.rank_lt {th : Thread M O} {m : M} (hw : th.WaitsFor m)
    (h : th.Typed rank level) : ∀ x ∈ th.owned, rank x < rank m := by
  intro x hx
  rcases hw with hmode | ⟨hmode, k, hstack⟩
  · have hhead := h.mode m (.inr hmode)
    simp only [Thread.owned, hmode] at hx
    cases hheld : held th.stack with
    | nil => simp [hheld] at hx
    | cons y l =>
      rw [hheld] at hhead hx
      obtain rfl := Option.some.inj hhead
      exact held_sorted h.stack hheld x hx
  · have hx' : x ∈ held k := by
      rcases hstack with hstack | ⟨a, hstack⟩ <;>
        simpa only [Thread.owned, hmode, hstack, held] using hx
    have htyped := h.stack
    rcases hstack with hstack | ⟨a, hstack⟩ <;> rw [hstack] at htyped
    · exact Nat.lt_of_lt_of_le (rank_lt_limit htyped.2 x hx') htyped.1
    · exact Nat.lt_of_lt_of_le (rank_lt_limit htyped.2 x hx') htyped.1.1

theorem typed_running {k : List (Frame M O)} (h : Typed rank level k) :
    Thread.Typed rank level ⟨.running, k⟩ :=
  ⟨h, fun _ hm => hm.elim nofun nofun⟩

end

/-- What a step takes or gives is the last of the mutexes owned. -/
def Effect.Changes (before after : List M) : Effect M → Prop
  | .none => after = before
  | .take m => after = m :: before
  | .give m => before = m :: after

section
variable (D : Discipline M O)

theorem runCode_typed {k : List (Frame M O)} {c : Code M O} {x : Choice O} {th : Thread M O}
    {e : Effect M} (hc : c.Ordered D.rank D.level (limit D.rank (held k)) (held k).head?)
    (hk : Typed D.rank D.level k) (hleak : ∀ m, c ≠ .leak m)
    (h : runCode D.body k c x = some (th, e)) :
    th.Typed D.rank D.level ∧ e.Changes (held k) th.owned := by
  cases c with
  | skip =>
    cases x with
    | go =>
      obtain ⟨rfl, rfl⟩ := Prod.mk.inj (Option.some.inj h)
      exact ⟨typed_running hk, rfl⟩
    | _ => cases h
  | seq a b =>
    cases x with
    | go =>
      obtain ⟨rfl, rfl⟩ := Prod.mk.inj (Option.some.inj h)
      exact ⟨typed_running ⟨hc.1, hc.2, hk⟩, rfl⟩
    | _ => cases h
  | choice a b =>
    cases x with
    | left =>
      obtain ⟨rfl, rfl⟩ := Prod.mk.inj (Option.some.inj h)
      exact ⟨typed_running ⟨hc.1, hk⟩, rfl⟩
    | right =>
      obtain ⟨rfl, rfl⟩ := Prod.mk.inj (Option.some.inj h)
      exact ⟨typed_running ⟨hc.2, hk⟩, rfl⟩
    | _ => cases h
  | pick f =>
    cases x with
    | pick i =>
      obtain ⟨rfl, rfl⟩ := Prod.mk.inj (Option.some.inj h)
      exact ⟨typed_running ⟨hc i, hk⟩, rfl⟩
    | _ => cases h
  | loop a =>
    cases x with
    | left =>
      obtain ⟨rfl, rfl⟩ := Prod.mk.inj (Option.some.inj h)
      exact ⟨typed_running ⟨hc, hc, hk⟩, rfl⟩
    | right =>
      obtain ⟨rfl, rfl⟩ := Prod.mk.inj (Option.some.inj h)
      exact ⟨typed_running hk, rfl⟩
    | _ => cases h
  | locked m a =>
    cases x with
    | go =>
      obtain ⟨rfl, rfl⟩ := Prod.mk.inj (Option.some.inj h)
      exact ⟨typed_running ⟨hc.2, hc.1, hk⟩, rfl⟩
    | _ => cases h
  | leak m => exact absurd rfl (hleak m)
  | wait m =>
    cases x with
    | go =>
      obtain ⟨rfl, rfl⟩ := Prod.mk.inj (Option.some.inj h)
      have hinner : (held k).head? = some m := hc
      refine ⟨⟨hk, fun m' hm' => ?_⟩, ?_⟩
      · obtain rfl : m = m' := by simpa using hm'
        exact hinner
      · obtain ⟨l, hl⟩ := List.head?_eq_some_iff.mp hinner
        change held k = m :: (held k).tail
        rw [hl, List.tail_cons]
    | _ => cases h
  | call o =>
    cases x with
    | go =>
      obtain ⟨rfl, rfl⟩ := Prod.mk.inj (Option.some.inj h)
      exact ⟨typed_running ⟨(D.ordered o).mono hc, hk⟩, rfl⟩
    | _ => cases h
  | user =>
    cases x with
    | op o =>
      obtain ⟨rfl, rfl⟩ := Prod.mk.inj (Option.some.inj h)
      have hlimit : limit D.rank (held k) = 0 := hc
      have hcall : limit D.rank (held k) ≤ D.level o := by
        rw [hlimit]
        exact Nat.zero_le _
      exact ⟨typed_running ⟨hcall, hc, hk⟩, rfl⟩
    | right =>
      obtain ⟨rfl, rfl⟩ := Prod.mk.inj (Option.some.inj h)
      exact ⟨typed_running hk, rfl⟩
    | _ => cases h

theorem Thread.step_typed {th th' : Thread M O} {x : Choice O} {e : Effect M}
    (hth : th.Typed D.rank D.level)
    (hleak : ∀ m k, th.mode = .running → th.stack ≠ .code (.leak m) :: k)
    (h : th.step D.body x = some (th', e)) :
    th'.Typed D.rank D.level ∧ e.Changes th.owned th'.owned := by
  obtain ⟨mode, stack⟩ := th
  cases mode with
  | asleep m =>
    obtain ⟨rfl, rfl⟩ := Prod.mk.inj (Option.some.inj h)
    refine ⟨⟨hth.stack, fun m' hm' => ?_⟩, rfl⟩
    obtain rfl : m = m' := by simpa using hm'
    exact hth.mode m (.inl rfl)
  | woken m =>
    obtain ⟨rfl, rfl⟩ := Prod.mk.inj (Option.some.inj h)
    obtain ⟨l, hl⟩ := List.head?_eq_some_iff.mp (hth.mode m (.inr rfl))
    refine ⟨typed_running hth.stack, ?_⟩
    change held stack = m :: (held stack).tail
    rw [hl, List.tail_cons]
  | running =>
    cases stack with
    | nil => cases h
    | cons f k =>
      cases f with
      | code c =>
        exact runCode_typed (k := k) D hth.stack.1 hth.stack.2 (fun m hm => hleak m k rfl (by rw [hm])) h
      | unlock m =>
        obtain ⟨rfl, rfl⟩ := Prod.mk.inj (Option.some.inj h)
        exact ⟨typed_running hth.stack.2, rfl⟩

/-- All threads keep to the order, and each mutex is owned by the thread that has it. -/
structure Inv (s : State M O) : Prop where
  threads : ∀ t, (s.threads t).Typed D.rank D.level
  owner : ∀ m t, s.owner m = some t ↔ m ∈ (s.threads t).owned

theorem inv_start : Inv D (start : State M O) :=
  ⟨fun _ => typed_running ⟨rfl, trivial⟩, fun _ _ => iff_of_false nofun nofun⟩

variable [DecidableEq M]

theorem apply_inv {s s' : State M O} {t : Nat} {th : Thread M O} {e : Effect M} (hi : Inv D s)
    (hth : th.Typed D.rank D.level) (hchanges : e.Changes (s.threads t).owned th.owned)
    (h : s.apply t th e = some s') : Inv D s' := by
  have hthreads (u : Nat) : (Function.update s.threads t th u).Typed D.rank D.level := by
    by_cases hu : u = t
    · rwa [hu, Function.update_self]
    · rw [Function.update_of_ne hu]
      exact hi.threads u
  have hother {u : Nat} (hu : u ≠ t) (m : M) :
      s.owner m = some u ↔ m ∈ (Function.update s.threads t th u).owned := by
    rw [Function.update_of_ne hu]
    exact hi.owner m u
  cases e with
  | none =>
    have howned : th.owned = (s.threads t).owned := hchanges
    obtain rfl := Option.some.inj h
    refine ⟨hthreads, fun m u => ?_⟩
    by_cases hu : u = t
    · simp only [hu, Function.update_self, howned]
      exact hi.owner m t
    · exact hother hu m
  | take m =>
    have howned : th.owned = m :: (s.threads t).owned := hchanges
    obtain ⟨hfree, rfl⟩ := enabled h
    refine ⟨hthreads, fun m' u => ?_⟩
    by_cases hu : u = t
    · simp only [hu, Function.update_self, howned, List.mem_cons, ← hi.owner]
      by_cases hm : m' = m
      · simp [hm]
      · simp [hm]
    · simp only [← hother hu]
      by_cases hm : m' = m
      · simp [hm, hfree, Ne.symm hu]
      · simp [Function.update_of_ne hm]
  | give m =>
    have howned : (s.threads t).owned = m :: th.owned := hchanges
    obtain rfl := Option.some.inj h
    have hnodup := Thread.owned_nodup (hi.threads t)
    rw [howned] at hnodup
    have hgiven : s.owner m = some t := (hi.owner m t).mpr (by simp [howned])
    refine ⟨hthreads, fun m' u => ?_⟩
    by_cases hu : u = t
    · simp only [hu, Function.update_self]
      by_cases hm : m' = m
      · simp [hm, (List.nodup_cons.mp hnodup).1]
      · rw [Function.update_of_ne hm, hi.owner, howned, List.mem_cons]
        simp [hm]
    · simp only [← hother hu]
      by_cases hm : m' = m
      · simp [hm, hgiven, Ne.symm hu]
      · simp [Function.update_of_ne hm]

theorem step_inv {s s' : State M O} {a : Nat × Choice O} (hi : Inv D s) (hleak : ¬Leaks s a.1)
    (h : step D.body s a = some s') : Inv D s' := by
  obtain ⟨⟨th, e⟩, hth, happly⟩ := Option.bind_eq_some_iff.mp h
  obtain ⟨htyped, hchanges⟩ := Thread.step_typed D (hi.threads a.1)
    (fun m k hmode hstack => hleak ⟨m, k, hmode, hstack⟩) hth
  exact apply_inv D hi htyped hchanges happly

omit [DecidableEq M] in
theorem waits_rank_lt {s : State M O} (hi : Inv D s) {m m' : M} {t : Nat}
    (howner : s.owner m = some t) (hw : (s.threads t).WaitsFor m') : D.rank m < D.rank m' :=
  hw.rank_lt (hi.threads t) m ((hi.owner m t).mp howner)

omit [DecidableEq M] in
theorem not_deadlocked {s : State M O} (hi : Inv D s) (W : Nat → Prop) : ¬Deadlocked s W := by
  rintro ⟨⟨t, ht⟩, hall⟩
  -- ranks rise from each mutex to the one its owner waits for, and they are bounded
  have hnone (n : Nat) : ∀ m u, W u → s.owner m = some u → ¬D.height ≤ D.rank m + n := by
    induction n with
    | zero => exact fun m u _ _ hn => Nat.lt_irrefl _ (Nat.lt_of_lt_of_le (D.rank_lt m) hn)
    | succ n ih =>
      intro m u hu howner hn
      obtain ⟨m', hw, u', hu', howner'⟩ := hall u hu
      have hlt := waits_rank_lt D hi howner hw
      exact ih m' u' hu' howner' (by omega)
  obtain ⟨m, -, u, hu, howner⟩ := hall t ht
  exact hnone D.height m u hu howner (Nat.le_add_left _ _)

/-- In every run in which no mutex is leaked, no set of threads waits for itself. -/
theorem Discipline.deadlock_free {ms : List (Move (State M O) (Nat × Choice O))} {s : State M O}
    (h : Path (step D.body) start ms s) (hleak : ∀ m ∈ ms, ¬Leaks m.pre m.act.1)
    (W : Nat → Prop) : ¬Deadlocked s W :=
  not_deadlocked D (h.guarded (inv_start D) (fun _ _ _ hi hl hs => step_inv D hi hl hs) hleak) W

end
end DericRpc.Locks
