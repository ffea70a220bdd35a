import DericRpc.Lib.Lts

/-! Forward simulations between partial step functions. A step below is matched above by any
number of actions, and what holds of every run above is carried to the runs below. -/
namespace DericRpc.Simulation
open Lts
variable {S T U A B C : Type*}

/-- From related states each step that meets the guard is matched by the actions that `acts`
gives for it, and the states behind are related again. -/
def Simulates (step : S → A → Option S) (step' : T → B → Option T) (G : S → A → Prop)
    (R : S → T → Prop) (acts : Move S A → List B) : Prop :=
  ∀ u a v x, R u x → G u a → step u a = some v →
    ∃ y, run step' x (acts ⟨u, a, v⟩) = some y ∧ R v y

variable {step : S → A → Option S} {step' : T → B → Option T} {step'' : U → C → Option U}
  {G : S → A → Prop} {R : S → T → Prop} {acts : Move S A → List B}
  {s t : S} {x y : T} {ms : List (Move S A)}

theorem run_append (as bs : List B) (x : T) :
    run step' x (as ++ bs) = (run step' x as).bind fun y => run step' y bs := by
  induction as generalizing x with
  | nil => rfl
  | cons a as ih =>
    simp only [List.cons_append, run, Option.bind_assoc]
    exact congrArg _ (funext ih)

theorem run_trans {as bs : List B} {z : T} (h : run step' x as = some y)
    (h' : run step' y bs = some z) : run step' x (as ++ bs) = some z := by
  rw [run_append, h, Option.bind_some, h']

theorem run_single {b : B} : run step' x [b] = some y ↔ step' x b = some y := by
  cases h : step' x b <;> simp [run, h]

theorem run_guarded {I : T → Prop} {E : B → Prop}
    (hs : ∀ x b y, I x → E b → step' x b = some y → I y) {bs : List B}
    (h : run step' x bs = some y) (hb : ∀ b ∈ bs, E b) (hx : I x) : I y := by
  obtain ⟨ns, hp, rfl⟩ := path_of_run h
  exact hp.guarded (G := fun _ b => E b) hx hs fun m hm => hb m.act (List.mem_map_of_mem hm)

theorem run_invariant {I : T → Prop} (hs : ∀ x b y, I x → step' x b = some y → I y)
    {bs : List B} (h : run step' x bs = some y) (hx : I x) : I y :=
  run_guarded (E := fun _ => True) (fun x b y hi _ => hs x b y hi) h (fun _ _ => trivial) hx

/-- Where allowed actions can always bring a measure down, they can bring it to zero. -/
theorem can_drain {I : S → Prop} {E : A → Prop} (f : S → Nat)
    (hs : ∀ u, I u → f u ≠ 0 → ∃ as v, (∀ a ∈ as, E a) ∧ Lts.run step u as = some v ∧ I v ∧
      f v < f u) {n : Nat} (hn : f s = n) (h : I s) :
    ∃ as v, (∀ a ∈ as, E a) ∧ Lts.run step s as = some v ∧ I v ∧ f v = 0 := by
  induction n using Nat.strongRecOn generalizing s with
  | ind n ih =>
    by_cases hzero : f s = 0
    · exact ⟨[], s, List.forall_mem_nil _, rfl, h, hzero⟩
    · obtain ⟨as, u, has, hu, hi, hlt⟩ := hs s h hzero
      obtain ⟨bs, v, hbs, hv, hiv, hfv⟩ := ih (f u) (hn ▸ hlt) rfl hi
      refine ⟨as ++ bs, v, fun a ha => ?_, run_trans hu hv, hiv, hfv⟩
      exact (List.mem_append.mp ha).elim (has a) (hbs a)

/-- The run below is matched by the run above that takes the actions of all its moves. -/
theorem Simulates.path (h : Simulates step step' G R acts) (hp : Path step s ms t) (hR : R s x)
    (hg : ∀ m ∈ ms, G m.pre m.act) : ∃ y, run step' x (ms.flatMap acts) = some y ∧ R t y := by
  induction hp with
  | nil => exact ⟨x, rfl, hR⟩
  | @snoc ms u v a hp hu ih =>
    obtain ⟨y, hy, hRy⟩ := ih fun m hm => hg m (List.mem_append_left _ hm)
    obtain ⟨z, hz, hRz⟩ := h u a v y hRy (hg ⟨u, a, v⟩ (by simp)) hu
    refine ⟨z, ?_, hRz⟩
    rw [List.flatMap_append, List.flatMap_singleton]
    exact run_trans hy hz

/-- An invariant above holds, through the relation, behind every run below. -/
theorem Simulates.invariant {I : T → Prop} (h : Simulates step step' G R acts)
    (hs : ∀ x b y, I x → step' x b = some y → I y) (hp : Path step s ms t) (hR : R s x)
    (hx : I x) (hg : ∀ m ∈ ms, G m.pre m.act) : ∃ y, R t y ∧ I y := by
  obtain ⟨y, hy, hRy⟩ := h.path hp hR hg
  exact ⟨y, hRy, run_invariant hs hy hx⟩

/-- Actions of the middle level as a run of the upper one. -/
theorem Simulates.run {H : T → B → Prop} {Q : T → U → Prop} {acts' : Move T B → List C}
    (h : Simulates step' step'' H Q acts') {bs : List B} (hr : Lts.run step' x bs = some y)
    {w : U} (hQ : Q x w) (hg : ∀ x b, H x b) :
    ∃ cs z, Lts.run step'' w cs = some z ∧ Q y z := by
  obtain ⟨ns, hp, -⟩ := path_of_run hr
  obtain ⟨z, hz, hQz⟩ := h.path hp hQ fun m _ => hg m.pre m.act
  exact ⟨_, z, hz, hQz⟩

end DericRpc.Simulation
