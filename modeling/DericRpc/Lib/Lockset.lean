import DericRpc.Lib.Locks

/-! Fields with a mutex of their own. Where the code of the operations accesses each field only
while it has the field's mutex, any two accesses of different threads are ordered by it. -/
namespace DericRpc.Lockset
open Lts Locks
variable {M O V : Type}

/-! Code with accesses: `.inr v` is one access to the field `v`. -/

def access (v : V) : Code M (O ⊕ V) := .call (.inr v)

def op (o : O) : Code M (O ⊕ V) := .call (.inl o)

def withAccesses (body : O → Code M (O ⊕ V)) : O ⊕ V → Code M (O ⊕ V) :=
  Sum.elim body fun _ => .skip

def liftChoice : Choice O → Choice (O ⊕ V)
  | .go => .go
  | .left => .left
  | .right => .right
  | .pick i => .pick i
  | .op o => .op (.inl o)

/-- Foreign code runs operations, and accesses no field by itself. -/
def step [DecidableEq M] (body : O → Code M (O ⊕ V)) (s : State M (O ⊕ V)) (a : Nat × Choice O) :
    Option (State M (O ⊕ V)) :=
  Locks.step (withAccesses body) s (a.1, liftChoice a.2)

/-- Code without accesses. -/
def lift : Code M O → Code M (O ⊕ V)
  | .skip => .skip
  | .seq a b => .seq (lift a) (lift b)
  | .choice a b => .choice (lift a) (lift b)
  | .pick f => .pick fun i => lift (f i)
  | .loop a => .loop (lift a)
  | .locked m a => .locked m (lift a)
  | .leak m => .leak m
  | .wait m => .wait m
  | .call o => .call (.inl o)
  | .user => .user

/-- What is left of code without its accesses, and without the steps that do nothing. -/
def forget : Code M (O ⊕ V) → Code M O
  | .skip => .skip
  | .seq a b => .seq (forget a) (forget b)
  | .choice a b => .choice (forget a) (forget b)
  | .pick f => .pick fun i => forget (f i)
  | .loop a => .loop (forget a)
  | .locked m a => .locked m (forget a)
  | .leak m => .leak m
  | .wait m => .wait m
  | .call (.inl o) => .call o
  | .call (.inr _) => .skip
  | .user => .user

def tidySeq : Code M O → Code M O → Code M O
  | .skip, b => b
  | a, .skip => a
  | a, b => .seq a b

def tidyChoice : Code M O → Code M O → Code M O
  | .skip, .skip => .skip
  | .choice a .skip, .skip => .choice a .skip
  | a, b => .choice a b

def tidyLoop : Code M O → Code M O
  | .skip => .skip
  | a => .loop a

def tidy : Code M O → Code M O
  | .seq a b => tidySeq (tidy a) (tidy b)
  | .choice a b => tidyChoice (tidy a) (tidy b)
  | .pick f => .pick fun i => tidy (f i)
  | .loop a => tidyLoop (tidy a)
  | .locked m a => .locked m (tidy a)
  | c => c

/-! Where the accesses stand. -/

/-- The mutexes that the code takes and leaves locked. -/
def leaks : Code M O → List M
  | .seq a b => leaks a ++ leaks b
  | .leak m => [m]
  | _ => []

/-- `known` are mutexes that the thread has when it runs the code, `inner` is the one locked last
by the operation itself. -/
def Guarded (guard : V → M) (inner : Option M) (known : M → Prop) : Code M (O ⊕ V) → Prop
  | .skip | .leak _ | .call (.inl _) | .user => True
  | .seq a b => Guarded guard inner known a ∧
      Guarded guard inner (fun m => m ∈ leaks a ∨ known m) b
  | .choice a b => Guarded guard inner known a ∧ Guarded guard inner known b
  | .pick f => ∀ i, Guarded guard inner known (f i)
  | .loop a => Guarded guard inner known a
  | .locked m a => Guarded guard (some m) (fun m' => m' = m ∨ known m') a
  | .wait m => inner = some m
  | .call (.inr v) => known (guard v)

/-- Operations that access fields only with their mutexes. -/
structure Guarding (M O V : Type) where
  body : O → Code M (O ⊕ V)
  guard : V → M
  guarded : ∀ o, Guarded guard none (fun _ => False) (body o)

/-- `leaked` are the mutexes that the thread has taken for ever. -/
def Typed (guard : V → M) (leaked : M → Prop) : List (Frame M (O ⊕ V)) → Prop
  | [] => True
  | .code c :: k => Guarded guard (held k).head? (fun m => m ∈ held k ∨ leaked m) c ∧
      Typed guard (fun m => m ∈ leaks c ∨ leaked m) k
  | .unlock _ :: k => Typed guard leaked k

structure ThreadTyped (guard : V → M) (leaked : M → Prop) (th : Thread M (O ⊕ V)) : Prop where
  stack : Typed guard leaked th.stack
  mode : ∀ m, th.mode = .asleep m ∨ th.mode = .woken m → (held th.stack).head? = some m

/-- The thread is at an access to the field. -/
def AtAccess (s : State M (O ⊕ V)) (t : Nat) (v : V) : Prop :=
  (s.threads t).mode = .running ∧ ∃ k, (s.threads t).stack = .code (access v) :: k

section
variable {guard : V → M}

theorem Guarded.mono {c : Code M (O ⊕ V)} {inner inner' : Option M} {known known' : M → Prop}
    (h : Guarded guard inner known c) (hinner : inner = none ∨ inner = inner')
    (hknown : ∀ m, known m → known' m) : Guarded guard inner' known' c := by
  induction c generalizing inner inner' known known' with
  | skip => trivial
  | seq a b iha ihb =>
    exact ⟨iha h.1 hinner hknown, ihb h.2 hinner fun m hm => hm.imp_right (hknown m)⟩
  | choice a b iha ihb => exact ⟨iha h.1 hinner hknown, ihb h.2 hinner hknown⟩
  | pick f ih => exact fun i => ih i (h i) hinner hknown
  | loop a ih => exact ih h hinner hknown
  | locked m a ih => exact ih h (.inr rfl) fun m' hm' => hm'.imp_right (hknown m')
  | leak m => trivial
  | wait m =>
    have hm : inner = some m := h
    obtain hnone | rfl := hinner
    · rw [hnone] at hm
      cases hm
    · exact hm
  | call o =>
    cases o with
    | inl o => trivial
    | inr v => exact hknown _ h
  | user => trivial

theorem Typed.mono {k : List (Frame M (O ⊕ V))} {leaked leaked' : M → Prop}
    (h : Typed guard leaked k) (hsub : ∀ m, leaked m → leaked' m) : Typed guard leaked' k := by
  induction k generalizing leaked leaked' with
  | nil => trivial
  | cons f k ih =>
    cases f with
    | code c =>
      exact ⟨h.1.mono (.inr rfl) fun m hm => hm.imp_right (hsub m),
        ih h.2 fun m hm => hm.imp_right (hsub m)⟩
    | unlock m => exact ih h hsub

theorem typed_running {k : List (Frame M (O ⊕ V))} {leaked : M → Prop}
    (h : Typed guard leaked k) : ThreadTyped guard leaked ⟨.running, k⟩ :=
  ⟨h, fun _ hm => hm.elim nofun nofun⟩

/-- What is to be done next stands on what was to be done then. -/
theorem Typed.push {k : List (Frame M (O ⊕ V))} {leaked : M → Prop} {c : Code M (O ⊕ V)}
    (hk : Typed guard leaked k)
    (hc : Guarded guard (held k).head? (fun m => m ∈ held k ∨ leaked m) c) :
    Typed guard leaked (.code c :: k) :=
  ⟨hc, hk.mono fun _ => .inr⟩

end

/-- What a step of a thread does to the mutexes it has to unlock, to those of them that it owns,
and to the leaked ones. -/
inductive Change :
    List M → List M → (M → Prop) → List M → List M → (M → Prop) → Effect M → Prop
  | quiet (h o : List M) (l : M → Prop) : Change h o l h o l .none
  | lock (m : M) (h : List M) (l : M → Prop) : Change h h l (m :: h) (m :: h) l (.take m)
  | leak (m : M) (h : List M) (l : M → Prop) :
      Change h h l h h (fun m' => m' = m ∨ l m') (.take m)
  | unlock (m : M) (h : List M) (l : M → Prop) : Change (m :: h) (m :: h) l h h l (.give m)
  | sleep (m : M) (h : List M) (l : M → Prop) :
      Change (m :: h) (m :: h) l (m :: h) h l (.give m)
  | wake (m : M) (h : List M) (l : M → Prop) :
      Change (m :: h) h l (m :: h) (m :: h) l (.take m)

/-- The step of a thread whose code is guarded. -/
def Proper (guard : V → M) (leaked : M → Prop) (th th' : Thread M (O ⊕ V)) (e : Effect M) :
    Prop :=
  ∃ leaked', ThreadTyped guard leaked' th' ∧
    Change (held th.stack) th.owned leaked (held th'.stack) th'.owned leaked' e

variable (G : Guarding M O V)

theorem runCode_proper {k : List (Frame M (O ⊕ V))} {leaked : M → Prop} {c : Code M (O ⊕ V)}
    {x : Choice O} {th : Thread M (O ⊕ V)} {e : Effect M}
    (hc : Guarded G.guard (held k).head? (fun m => m ∈ held k ∨ leaked m) c)
    (hk : Typed G.guard (fun m => m ∈ leaks c ∨ leaked m) k)
    (h : runCode (withAccesses G.body) k c (liftChoice x) = some (th, e)) :
    Proper G.guard leaked ⟨.running, .code c :: k⟩ th e := by
  have hkeep (hnone : leaks c = []) : Typed G.guard leaked k :=
    hk.mono fun m hm => hm.resolve_left (by rw [hnone]; exact List.not_mem_nil)
  cases c with
  | skip =>
    cases x with
    | go =>
      obtain ⟨rfl, rfl⟩ := Prod.mk.inj (Option.some.inj h)
      exact ⟨leaked, typed_running (hkeep rfl), .quiet _ _ _⟩
    | _ => cases h
  | seq a b =>
    cases x with
    | go =>
      obtain ⟨rfl, rfl⟩ := Prod.mk.inj (Option.some.inj h)
      refine ⟨leaked, typed_running ⟨hc.1, ?_, ?_⟩, .quiet _ _ _⟩
      · exact hc.2.mono (.inr rfl) fun m hm => or_left_comm.mp hm
      · exact hk.mono fun m hm => by
          rw [leaks, List.mem_append] at hm
          exact or_left_comm.mp (or_assoc.mp hm)
    | _ => cases h
  | choice a b =>
    cases x with
    | left =>
      obtain ⟨rfl, rfl⟩ := Prod.mk.inj (Option.some.inj h)
      exact ⟨leaked, typed_running ((hkeep rfl).push hc.1), .quiet _ _ _⟩
    | right =>
      obtain ⟨rfl, rfl⟩ := Prod.mk.inj (Option.some.inj h)
      exact ⟨leaked, typed_running ((hkeep rfl).push hc.2), .quiet _ _ _⟩
    | _ => cases h
  | pick f =>
    cases x with
    | pick i =>
      obtain ⟨rfl, rfl⟩ := Prod.mk.inj (Option.some.inj h)
      exact ⟨leaked, typed_running ((hkeep rfl).push (hc i)), .quiet _ _ _⟩
    | _ => cases h
  | loop a =>
    cases x with
    | left =>
      obtain ⟨rfl, rfl⟩ := Prod.mk.inj (Option.some.inj h)
      exact ⟨leaked, typed_running (((hkeep rfl).push (c := .loop a) hc).push hc), .quiet _ _ _⟩
    | right =>
      obtain ⟨rfl, rfl⟩ := Prod.mk.inj (Option.some.inj h)
      exact ⟨leaked, typed_running (hkeep rfl), .quiet _ _ _⟩
    | _ => cases h
  | locked m a =>
    cases x with
    | go =>
      obtain ⟨rfl, rfl⟩ := Prod.mk.inj (Option.some.inj h)
      refine ⟨leaked, typed_running (Typed.push (k := .unlock m :: k) (hkeep rfl) ?_), .lock m _ _⟩
      exact Guarded.mono hc (.inr rfl) fun m' hm' => by
        rw [held, List.mem_cons]
        exact or_assoc.mpr hm'
    | _ => cases h
  | leak m =>
    cases x with
    | go =>
      obtain ⟨rfl, rfl⟩ := Prod.mk.inj (Option.some.inj h)
      exact ⟨_, typed_running (hk.mono fun m' hm' => hm'.imp_left List.mem_singleton.mp),
        .leak m _ _⟩
    | _ => cases h
  | wait m =>
    have hinner : (held k).head? = some m := hc
    obtain ⟨l, hl⟩ := List.head?_eq_some_iff.mp hinner
    cases x with
    | go =>
      obtain ⟨rfl, rfl⟩ := Prod.mk.inj (Option.some.inj h)
      refine ⟨leaked, ⟨hkeep rfl, fun m' hm' => ?_⟩, ?_⟩
      · obtain rfl : m = m' := by simpa using hm'
        exact hinner
      · change Change (held k) (held k) leaked (held k) (held k).tail leaked (.give m)
        rw [hl]
        exact .sleep m l leaked
    | _ => cases h
  | call o =>
    cases x with
    | go =>
      obtain ⟨rfl, rfl⟩ := Prod.mk.inj (Option.some.inj h)
      refine ⟨leaked, typed_running ((hkeep rfl).push ?_), .quiet _ _ _⟩
      cases o with
      | inl o => exact (G.guarded o).mono (.inl rfl) fun _ hm => hm.elim
      | inr v => trivial
    | _ => cases h
  | user =>
    cases x with
    | op o =>
      obtain ⟨rfl, rfl⟩ := Prod.mk.inj (Option.some.inj h)
      exact ⟨leaked, typed_running (((hkeep rfl).push (c := .user) trivial).push trivial), .quiet _ _ _⟩
    | right =>
      obtain ⟨rfl, rfl⟩ := Prod.mk.inj (Option.some.inj h)
      exact ⟨leaked, typed_running (hkeep rfl), .quiet _ _ _⟩
    | _ => cases h

theorem thread_proper {leaked : M → Prop} {th th' : Thread M (O ⊕ V)} {x : Choice O}
    {e : Effect M} (hth : ThreadTyped G.guard leaked th)
    (h : th.step (withAccesses G.body) (liftChoice x) = some (th', e)) :
    Proper G.guard leaked th th' e := by
  obtain ⟨mode, stack⟩ := th
  cases mode with
  | asleep m =>
    obtain ⟨rfl, rfl⟩ := Prod.mk.inj (Option.some.inj h)
    refine ⟨leaked, ⟨hth.stack, fun m' hm' => ?_⟩, .quiet _ _ _⟩
    obtain rfl : m = m' := by simpa using hm'
    exact hth.mode m (.inl rfl)
  | woken m =>
    obtain ⟨rfl, rfl⟩ := Prod.mk.inj (Option.some.inj h)
    obtain ⟨l, hl⟩ := List.head?_eq_some_iff.mp (hth.mode m (.inr rfl))
    refine ⟨leaked, typed_running hth.stack, ?_⟩
    change Change (held stack) (held stack).tail leaked (held stack) (held stack) leaked (.take m)
    rw [show held stack = m :: l from hl]
    exact .wake m l leaked
  | running =>
    cases stack with
    | nil => cases h
    | cons f k =>
      cases f with
      | code c => exact runCode_proper G hth.stack.1 hth.stack.2 h
      | unlock m =>
        obtain ⟨rfl, rfl⟩ := Prod.mk.inj (Option.some.inj h)
        exact ⟨leaked, typed_running hth.stack, .unlock m _ _⟩

/-- What a thread goes by: it owns its mutexes, those it has to unlock and those it leaked. -/
structure Holds (owner : M → Option Nat) (t : Nat) (h o : List M) (l : M → Prop) : Prop where
  nodup : h.Nodup
  owned : ∀ m ∈ o, owner m = some t
  leaked : ∀ m, l m → owner m = some t ∧ m ∉ h

theorem Holds.mono {owner owner' : M → Option Nat} {t : Nat} {h o : List M} {l : M → Prop}
    (hh : Holds owner t h o l) (hkeep : ∀ m, owner m = some t → owner' m = some t) :
    Holds owner' t h o l :=
  ⟨hh.nodup, fun m hm => hkeep m (hh.owned m hm),
    fun m hm => ⟨hkeep m (hh.leaked m hm).1, (hh.leaked m hm).2⟩⟩

/-- The code of all threads is guarded, and each has the mutexes that it goes by. -/
structure Inv (leaked : Nat → M → Prop) (s : State M (O ⊕ V)) : Prop where
  typed : ∀ t, ThreadTyped G.guard (leaked t) (s.threads t)
  holds : ∀ t, Holds s.owner t (held (s.threads t).stack) (s.threads t).owned (leaked t)

theorem inv_start : Inv G (fun _ _ => False) (start : State M (O ⊕ V)) :=
  ⟨fun _ => typed_running ⟨trivial, trivial⟩,
    fun _ => ⟨List.nodup_nil, fun _ hm => (nomatch hm), fun _ hm => hm.elim⟩⟩

theorem Inv.owner {leaked : Nat → M → Prop} {s : State M (O ⊕ V)} (hi : Inv G leaked s) {t : Nat}
    {v : V} (h : AtAccess s t v) : s.owner (G.guard v) = some t := by
  obtain ⟨hmode, k, hstack⟩ := h
  have htyped := (hi.typed t).stack
  rw [hstack] at htyped
  obtain hheld | hleaked := htyped.1
  · exact (hi.holds t).owned _ (by simpa only [Thread.owned, hmode, hstack, held] using hheld)
  · exact ((hi.holds t).leaked _ hleaked).1

theorem forall_thread {s : State M (O ⊕ V)} {t : Nat} {th : Thread M (O ⊕ V)}
    {Q : Nat → Thread M (O ⊕ V) → Prop} (hth : Q t th) (h : ∀ u, u ≠ t → Q u (s.threads u)) :
    ∀ u, Q u (Function.update s.threads t th u) := by
  intro u
  by_cases hu : u = t
  · rw [hu, Function.update_self]
    exact hth
  · rw [Function.update_of_ne hu]
    exact h u hu

variable [DecidableEq M]

section
variable {owner : M → Option Nat} {t u : Nat} {h o h' o' : List M} {l l' : M → Prop} {m : M}

theorem update_taken (hfree : owner m = none) {x : M} (hx : owner x = some u) :
    Function.update owner m (some t) x = some u := by
  have hne : x ≠ m := fun he => by rw [he, hfree] at hx; cases hx
  rw [Function.update_of_ne hne, hx]

theorem Change.taken (hc : Change h o l h' o' l' (.take m)) (hh : Holds owner t h o l)
    (hfree : owner m = none) : Holds (Function.update owner m (some t)) t h' o' l' := by
  have hkept := hh.mono fun x hx => update_taken (t := t) hfree hx
  have hnew : ∀ x, owner x = some t → x ≠ m := fun x hx he => by rw [he, hfree] at hx; cases hx
  have hself : Function.update owner m (some t) m = some t := Function.update_self ..
  cases hc with
  | lock =>
    refine ⟨List.nodup_cons.mpr ⟨fun hm => hnew m (hh.owned m hm) rfl, hh.nodup⟩,
      List.forall_mem_cons.mpr ⟨hself, hkept.owned⟩, fun x hx => ⟨(hkept.leaked x hx).1, ?_⟩⟩
    have hleaked := hh.leaked x hx
    exact fun hmem => (List.mem_cons.mp hmem).elim (hnew x hleaked.1) hleaked.2
  | leak =>
    refine ⟨hh.nodup, hkept.owned, fun x hx => ?_⟩
    obtain rfl | hx := hx
    · exact ⟨hself, fun hm => hnew x (hh.owned x hm) rfl⟩
    · exact hkept.leaked x hx
  | wake => exact ⟨hh.nodup, List.forall_mem_cons.mpr ⟨hself, hkept.owned⟩, hkept.leaked⟩

theorem Change.given (hc : Change h o l h' o' l' (.give m)) (hh : Holds owner t h o l) :
    owner m = some t ∧ Holds (Function.update owner m none) t h' o' l' := by
  have hkeep {x : M} (hx : x ≠ m) (hold : owner x = some t) :
      Function.update owner m none x = some t := by rw [Function.update_of_ne hx, hold]
  cases hc with
  | unlock _ k =>
    obtain ⟨hm, hk⟩ := List.nodup_cons.mp hh.nodup
    obtain ⟨howner, hrest⟩ := List.forall_mem_cons.mp hh.owned
    refine ⟨howner, hk, fun x hx => hkeep (fun he => hm (he ▸ hx)) (hrest x hx), fun x hx => ?_⟩
    obtain ⟨hx, hout⟩ := hh.leaked x hx
    exact ⟨hkeep (fun he => hout (by rw [he]; exact List.mem_cons_self)) hx,
      fun hmem => hout (List.mem_cons_of_mem m hmem)⟩
  | sleep _ k =>
    obtain ⟨hm, -⟩ := List.nodup_cons.mp hh.nodup
    obtain ⟨howner, hrest⟩ := List.forall_mem_cons.mp hh.owned
    refine ⟨howner, hh.nodup, fun x hx => hkeep (fun he => hm (he ▸ hx)) (hrest x hx),
      fun x hx => ?_⟩
    obtain ⟨hx, hout⟩ := hh.leaked x hx
    exact ⟨hkeep (fun he => hout (by rw [he]; exact List.mem_cons_self)) hx, hout⟩

end

/-- The thread's step gives the mutex back. -/
def Releases (m : Move (State M (O ⊕ V)) (Nat × Choice O)) (t : Nat) (x : M) : Prop :=
  m.act.1 = t ∧ m.pre.owner x = some t ∧ m.post.owner x = none

/-- The thread's step takes the mutex. -/
def Acquires (m : Move (State M (O ⊕ V)) (Nat × Choice O)) (t : Nat) (x : M) : Prop :=
  m.act.1 = t ∧ m.pre.owner x = none ∧ m.post.owner x = some t

theorem step_inv {leaked : Nat → M → Prop} {s s' : State M (O ⊕ V)} {a : Nat × Choice O}
    (hi : Inv G leaked s) (h : step G.body s a = some s') :
    (∃ leaked', Inv G leaked' s') ∧ ∀ x, s'.owner x = s.owner x ∨
      Releases ⟨s, a, s'⟩ a.1 x ∨ Acquires ⟨s, a, s'⟩ a.1 x := by
  obtain ⟨t, c⟩ := a
  obtain ⟨⟨th, e⟩, hth, happly⟩ := Option.bind_eq_some_iff.mp h
  obtain ⟨l, htyped, hchange⟩ := thread_proper G (hi.typed t) hth
  have hsame {u : Nat} (hu : u ≠ t) : Function.update leaked t l u = leaked u :=
    Function.update_of_ne hu ..
  -- the new state of the thread that steps, and what stays of the others
  have hall {owner' : M → Option Nat}
      (hown : Holds owner' t (held th.stack) th.owned l)
      (hothers : ∀ u, u ≠ t → ∀ m, s.owner m = some u → owner' m = some u) :
      Inv G (Function.update leaked t l) ⟨Function.update s.threads t th, owner'⟩ := by
    refine ⟨forall_thread (Q := fun u th => ThreadTyped G.guard (Function.update leaked t l u) th)
      (by rwa [Function.update_self]) fun u hu => by rw [hsame hu]; exact hi.typed u,
      forall_thread (Q := fun u th => Holds owner' u (held th.stack) th.owned
        (Function.update leaked t l u)) (by rwa [Function.update_self]) fun u hu => ?_⟩
    rw [hsame hu]
    exact (hi.holds u).mono (hothers u hu)
  cases e with
  | none =>
    obtain rfl := Option.some.inj happly
    have hown : Holds s.owner t (held th.stack) th.owned l := by
      have hold := hi.holds t
      generalize held (s.threads t).stack = h0, (s.threads t).owned = o0, leaked t = l0,
        held th.stack = h1, th.owned = o1 at hchange hold ⊢
      cases hchange
      exact hold
    exact ⟨⟨_, hall hown fun _ _ _ hm => hm⟩, fun _ => .inl rfl⟩
  | take m =>
    obtain ⟨hfree, rfl⟩ := enabled happly
    refine ⟨⟨_, hall (hchange.taken (hi.holds t) hfree) fun u _ m' hm' =>
      update_taken hfree hm'⟩, fun x => ?_⟩
    by_cases hx : x = m
    · subst hx
      exact .inr (.inr ⟨rfl, hfree, Function.update_self ..⟩)
    · exact .inl (Function.update_of_ne hx ..)
  | give m =>
    obtain rfl := Option.some.inj happly
    obtain ⟨howner, hown⟩ := hchange.given (hi.holds t)
    refine ⟨⟨_, hall hown fun u hu m' hm' => ?_⟩, fun x => ?_⟩
    · have hne : m' ≠ m := fun he => by
        rw [he, howner] at hm'
        exact hu (Option.some.inj hm').symm
      rw [Function.update_of_ne hne, hm']
    · by_cases hx : x = m
      · subst hx
        exact .inr (.inl ⟨rfl, howner, Function.update_self ..⟩)
      · exact .inl (Function.update_of_ne hx ..)

theorem path_inv {leaked : Nat → M → Prop} {s s' : State M (O ⊕ V)}
    {ms : List (Move (State M (O ⊕ V)) (Nat × Choice O))} (hi : Inv G leaked s)
    (h : Path (step G.body) s ms s') : ∃ leaked', Inv G leaked' s' :=
  h.invariant (I := fun s => ∃ leaked, Inv G leaked s) ⟨_, hi⟩
    fun _ _ _ ⟨_, hi⟩ hs => (step_inv G hi hs).1

/-- Before another thread has a mutex, the one that has it gives it back, and the other takes
it. -/
theorem handed_over {leaked : Nat → M → Prop} {s s' : State M (O ⊕ V)}
    {ms : List (Move (State M (O ⊕ V)) (Nat × Choice O))} {t u : Nat} {x : M}
    (hi : Inv G leaked s) (h : Path (step G.body) s ms s') (hs : s.owner x = some t)
    (hs' : s'.owner x = some u) (hne : t ≠ u) :
    ∃ p r q a w, ms = p ++ r :: (q ++ a :: w) ∧ Releases r t x ∧ Acquires a u x := by
  have hacquired : Since (fun _ m => Acquires m u x) (fun _ => False) ms := by
    refine h.since (R := fun s => s.owner x = some u) (fun hu => hne ?_) (fun pre v b w hp hb hw => ?_)
      hs'
    · exact Option.some.inj (hs.symm.trans hu)
    · obtain ⟨_, hv⟩ := path_inv G hi hp
      obtain hsame | ⟨-, -, hnone⟩ | htake := (step_inv G hv hb).2 x
      · exact .inr ⟨hsame ▸ hw, id⟩
      · rw [hw] at hnone
        cases hnone
      · obtain rfl : b.1 = u := Option.some.inj (htake.2.2.symm.trans hw)
        exact .inl htake
  obtain ⟨pre, a, post, rfl, ha, -⟩ := hacquired
  have hpre := (h.before rfl).1
  have hreleased : Since (fun _ m => Releases m t x) (fun _ => False) pre := by
    refine hpre.since (R := fun s => s.owner x ≠ some t) (fun hn => hn hs)
      (fun pre v b w hp hb hw => ?_) (by rw [ha.2.1]; exact nofun)
    obtain ⟨_, hv⟩ := path_inv G hi hp
    obtain hsame | hgive | ⟨-, hfree, -⟩ := (step_inv G hv hb).2 x
    · exact .inr ⟨hsame ▸ hw, id⟩
    · by_cases hb : b.1 = t
      · exact .inl (hb ▸ hgive)
      · refine .inr ⟨?_, id⟩
        rw [hgive.2.1]
        exact fun he => hb (Option.some.inj he)
    · exact .inr ⟨by rw [hfree]; exact nofun, id⟩
  obtain ⟨p, r, q, rfl, hr, -⟩ := hreleased
  exact ⟨p, r, q, a, post, by simp, hr, ha⟩

/-- Any two accesses of different threads to one field are ordered: the first thread unlocks the
field's mutex, and then the other locks it. -/
theorem Guarding.ordered {s s' : State M (O ⊕ V)}
    {ms ns : List (Move (State M (O ⊕ V)) (Nat × Choice O))} {t u : Nat} {v : V}
    (h : Path (step G.body) start ms s) (h' : Path (step G.body) s ns s') (ht : AtAccess s t v)
    (hu : AtAccess s' u v) (hne : t ≠ u) :
    ∃ p r q a w, ns = p ++ r :: (q ++ a :: w) ∧ Releases r t (G.guard v) ∧
      Acquires a u (G.guard v) := by
  obtain ⟨_, hs⟩ := path_inv G (inv_start G) h
  obtain ⟨_, hs'⟩ := path_inv G hs h'
  exact handed_over G hs h' (hs.owner G ht) (hs'.owner G hu) hne

end DericRpc.Lockset
