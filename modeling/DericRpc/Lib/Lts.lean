import Mathlib.Logic.Basic

/-! Runs of a partial step function over labelled actions. A path keeps the moves it
makes, so that a condition on the steps and a property of the states can be compared. -/
namespace DericRpc.Lts
variable {S A : Type*}

/-- One step of a run: the state before it, the action, the state after it. -/
structure Move (S A : Type*) where
  pre : S
  act : A
  post : S

inductive Path (step : S → A → Option S) (s : S) : List (Move S A) → S → Prop
  | nil : Path step s [] s
  | snoc {ms : List (Move S A)} {u v : S} {a : A} :
      Path step s ms u → step u a = some v → Path step s (ms ++ [⟨u, a, v⟩]) v

variable {step : S → A → Option S} {s t : S} {ms : List (Move S A)}

theorem enabled {c : Prop} [Decidable c] {u v : S}
    (h : (if c then some u else none) = some v) : c ∧ u = v := by
  by_cases hc : c
  · rw [if_pos hc] at h
    exact ⟨hc, Option.some.inj h⟩
  · rw [if_neg hc] at h
    cases h

/-- A state property that the guarded steps keep holds at the end of every path whose
moves all meet the guard. -/
theorem Path.guarded {I : S → Prop} {G : S → A → Prop} (h : Path step s ms t) (h0 : I s)
    (hs : ∀ u a v, I u → G u a → step u a = some v → I v)
    (hg : ∀ m ∈ ms, G m.pre m.act) : I t := by
  induction h with
  | nil => exact h0
  | @snoc ms u v a hp hu ih =>
    have hi := ih fun m hm => hg m (List.mem_append_left _ hm)
    exact hs u a v hi (hg ⟨u, a, v⟩ (by simp)) hu

theorem Path.invariant {I : S → Prop} (h : Path step s ms t) (h0 : I s)
    (hs : ∀ u a v, I u → step u a = some v → I v) : I t :=
  h.guarded (G := fun _ _ => True) h0 (fun u a v hi _ hu => hs u a v hi hu)
    (fun _ _ => trivial)

/-- Every move of a path is a step taken from a state that the path reaches earlier. -/
theorem Path.split {m : Move S A} (h : Path step s ms t) (hm : m ∈ ms) :
    ∃ pre post, ms = pre ++ m :: post ∧ Path step s pre m.pre ∧
      step m.pre m.act = some m.post := by
  induction h with
  | nil => simp at hm
  | @snoc ms u v a hp hu ih =>
    rcases List.mem_append.mp hm with hold | hnew
    · obtain ⟨pre, post, he, hpre, hstep⟩ := ih hold
      exact ⟨pre, post ++ [⟨u, a, v⟩], by simp [he], hpre, hstep⟩
    · have he : m = ⟨u, a, v⟩ := by simpa using hnew
      subst he
      exact ⟨ms, [], by simp, hp, hu⟩

/-- Where a list that ends in `y` is cut at one of its elements: at the end, or before it. -/
theorem split_snoc {α : Type*} {xs pre post : List α} {x y : α}
    (h : xs ++ [y] = pre ++ x :: post) :
    (xs = pre ∧ y = x ∧ post = []) ∨ ∃ rest, post = rest ++ [y] ∧ xs = pre ++ x :: rest := by
  rcases List.eq_nil_or_concat post with rfl | ⟨rest, z, rfl⟩
  · obtain ⟨hxs, hy⟩ := List.append_inj' h rfl
    exact .inl ⟨hxs, (List.cons.inj hy).1, rfl⟩
  · rw [List.concat_eq_append, ← List.cons_append, ← List.append_assoc] at h
    obtain ⟨hxs, hy⟩ := List.append_inj' h rfl
    exact .inr ⟨rest, by rw [List.concat_eq_append, (List.cons.inj hy).1], hxs⟩

theorem Path.before {m : Move S A} {pre post : List (Move S A)} (h : Path step s ms t)
    (hms : ms = pre ++ m :: post) : Path step s pre m.pre ∧ step m.pre m.act = some m.post := by
  induction h generalizing post with
  | nil => simp at hms
  | @snoc ms u v a hp hu ih =>
    rcases split_snoc hms with ⟨rfl, rfl, -⟩ | ⟨rest, -, hms⟩
    · exact ⟨hp, hu⟩
    · exact ih hms

theorem Path.guarded_move {I : S → Prop} {G : S → A → Prop} {m : Move S A}
    (h : Path step s ms t) (h0 : I s)
    (hs : ∀ u a v, I u → G u a → step u a = some v → I v)
    (hg : ∀ m ∈ ms, G m.pre m.act) (hm : m ∈ ms) :
    I m.pre ∧ I m.post ∧ step m.pre m.act = some m.post := by
  obtain ⟨pre, post, he, hpre, hstep⟩ := h.split hm
  have hi : I m.pre := hpre.guarded h0 hs fun x hx => hg x (by simp [he, hx])
  exact ⟨hi, hs _ _ _ hi (hg m hm) hstep, hstep⟩

/-- A condition that decides a property of single steps from the states of an invariant
decides it for all moves of a path. -/
theorem Path.moves_iff {J : S → Prop} {P Q : Move S A → Prop} (h : Path step s ms t) (hJ : J s)
    (hs : ∀ u a v, J u → step u a = some v → J v)
    (hpq : ∀ m, J m.pre → step m.pre m.act = some m.post → (P m ↔ Q m)) :
    (∀ m ∈ ms, P m) ↔ ∀ m ∈ ms, Q m := by
  have hone (m : Move S A) (hm : m ∈ ms) : P m ↔ Q m := by
    obtain ⟨pre, -, -, hpre, hstep⟩ := h.split hm
    exact hpq m (hpre.invariant hJ hs) hstep
  exact ⟨fun hp m hm => (hone m hm).1 (hp m hm), fun hq m hm => (hone m hm).2 (hq m hm)⟩

/-- A property that each step keeps exactly when it meets a guard holds all along a path
exactly when all moves meet the guard. -/
theorem Path.kept_iff {J R : S → Prop} {G : S → A → Prop} (h : Path step s ms t) (hJ : J s)
    (hR : R s) (hs : ∀ u a v, J u → step u a = some v → J v)
    (hiff : ∀ u a v, J u → R u → step u a = some v → (R v ↔ G u a)) :
    ((∀ m ∈ ms, R m.post) ↔ ∀ m ∈ ms, G m.pre m.act) ∧ ((∀ m ∈ ms, R m.post) → R t) := by
  induction h with
  | nil => exact ⟨by simp, fun _ => hR⟩
  | @snoc ms u v a hp hu ih =>
    simp only [List.forall_mem_append, List.forall_mem_singleton]
    refine ⟨?_, And.right⟩
    rw [← ih.1]
    exact and_congr_right fun hall => hiff u a v (hp.invariant hJ hs) (ih.2 hall) hu

/-- Where the guarded steps keep an invariant, and from its states a move has a property
exactly when it meets the guard, all moves of a path have it exactly when all meet the guard. -/
theorem Path.guarded_moves_iff {I : S → Prop} {P : Move S A → Prop} {G : S → A → Prop}
    (h : Path step s ms t) (h0 : I s) (hs : ∀ u a v, I u → G u a → step u a = some v → I v)
    (hiff : ∀ u a v, I u → step u a = some v → (P ⟨u, a, v⟩ ↔ G u a)) :
    (∀ m ∈ ms, P m) ↔ ∀ m ∈ ms, G m.pre m.act := by
  induction h with
  | nil => simp
  | @snoc ms u v a hp hu ih =>
    simp only [List.forall_mem_append, List.forall_mem_singleton]
    rw [ih]
    exact and_congr_right fun hall => hiff u a v (hp.guarded h0 hs hall) hu

/-- Where a condition on the states follows from an invariant of the guarded steps, and is
broken by every other step, it holds all along a path exactly when all moves meet the guard. -/
theorem Path.guarded_iff {I C : S → Prop} {G : S → A → Prop} (h : Path step s ms t) (h0 : I s)
    (hs : ∀ u a v, I u → G u a → step u a = some v → I v) (hc : ∀ u, I u → C u)
    (hn : ∀ u a v, I u → step u a = some v → C v → G u a) :
    (∀ m ∈ ms, C m.post) ↔ ∀ m ∈ ms, G m.pre m.act :=
  h.guarded_moves_iff h0 hs fun u a v hi hu =>
    ⟨fun hv => hn u a v hi hu hv, fun hg => hc v (hs u a v hi hg hu)⟩

/-- A move that `E` allows behind the moves before it, and none since that `B` marks. -/
def Since (E : List (Move S A) → Move S A → Prop) (B : Move S A → Prop)
    (ms : List (Move S A)) : Prop :=
  ∃ pre m post, ms = pre ++ m :: post ∧ E pre m ∧ ∀ x ∈ post, ¬B x

theorem Since.of_last {E : List (Move S A) → Move S A → Prop} {B : Move S A → Prop} {m : Move S A}
    (h : E ms m) : Since E B (ms ++ [m]) := ⟨ms, m, [], rfl, h, List.forall_mem_nil _⟩

theorem Since.snoc {E : List (Move S A) → Move S A → Prop} {B : Move S A → Prop} {m : Move S A}
    (h : Since E B ms) (hm : ¬B m) : Since E B (ms ++ [m]) := by
  obtain ⟨pre, x, post, rfl, hx, hpost⟩ := h
  refine ⟨pre, x, post ++ [m], by simp, hx, fun y hy => ?_⟩
  rcases List.mem_append.mp hy with hy | hy
  · exact hpost y hy
  · rwa [List.mem_singleton.mp hy]

/-- Where a property holds that only moves of `E` establish and every move of `B` ends, there
was one of `E` and none of `B` since. -/
theorem Path.since {R : S → Prop} {E : List (Move S A) → Move S A → Prop} {B : Move S A → Prop}
    (h : Path step s ms t) (h0 : ¬R s)
    (hs : ∀ pre u a v, Path step s pre u → step u a = some v → R v →
      E pre ⟨u, a, v⟩ ∨ R u ∧ ¬B ⟨u, a, v⟩) (hR : R t) : Since E B ms := by
  induction h with
  | nil => exact absurd hR h0
  | @snoc ms u v a hp hu ih =>
    rcases hs ms u a v hp hu hR with hnew | ⟨hold, hkept⟩
    · exact .of_last hnew
    · exact (ih hold).snoc hkept

theorem since_snoc {E : List (Move S A) → Move S A → Prop} {B : Move S A → Prop} {m : Move S A} :
    Since E B (ms ++ [m]) ↔ E ms m ∨ (Since E B ms ∧ ¬B m) := by
  constructor
  · rintro ⟨pre, x, post, hms, hx, hpost⟩
    rcases split_snoc hms with ⟨rfl, rfl, -⟩ | ⟨rest, rfl, rfl⟩
    · exact .inl hx
    · exact .inr ⟨⟨pre, x, rest, rfl, hx, fun z hz => hpost z (by simp [hz])⟩, hpost m (by simp)⟩
  · rintro (hnew | ⟨hold, hkept⟩)
    · exact .of_last hnew
    · exact hold.snoc hkept

theorem Since.last {E : List (Move S A) → Move S A → Prop} {B : Move S A → Prop} {m : Move S A}
    (h : Since E B (ms ++ [m])) : E ms m ∨ ¬B m := (since_snoc.mp h).imp_right And.right

/-- A property that the moves of `E` establish and all moves but those of `B` keep holds where
there was one of `E` and none of `B` since. -/
theorem Path.of_since {J R : S → Prop} {E : List (Move S A) → Move S A → Prop}
    {B : Move S A → Prop} (h : Path step s ms t) (hJ : J s)
    (hs : ∀ u a v, J u → step u a = some v → J v)
    (he : ∀ pre u a v, J u → step u a = some v → E pre ⟨u, a, v⟩ → R v)
    (hk : ∀ u a v, J u → R u → step u a = some v → ¬B ⟨u, a, v⟩ → R v) (hsince : Since E B ms) :
    R t := by
  induction h with
  | nil =>
    obtain ⟨pre, m, post, hnil, -⟩ := hsince
    simp at hnil
  | @snoc ms u v a hp hu ih =>
    have hj := hp.invariant hJ hs
    rcases since_snoc.mp hsince with hnew | ⟨hold, hkept⟩
    · exact he ms u a v hj hu hnew
    · exact hk u a v hj (ih hold) hu hkept

/-- A property that a step leaves behind it exactly when it is one of `E`, or found it and is
not one of `B`. -/
theorem Path.since_iff {J R : S → Prop} {E : List (Move S A) → Move S A → Prop}
    {B : Move S A → Prop} (h : Path step s ms t) (hJ : J s) (h0 : ¬R s)
    (hs : ∀ u a v, J u → step u a = some v → J v)
    (hiff : ∀ pre u a v, J u → step u a = some v →
      (R v ↔ E pre ⟨u, a, v⟩ ∨ (R u ∧ ¬B ⟨u, a, v⟩))) : R t ↔ Since E B ms := by
  induction h with
  | nil => exact iff_of_false h0 fun ⟨pre, m, post, hnil, _⟩ => by simp at hnil
  | @snoc ms u v a hp hu ih => rw [hiff ms u a v (hp.invariant hJ hs) hu, since_snoc, ih]

/-- `Q` holds of every state that a path reaches, with the moves that led there. -/
def Along (Q : List (Move S A) → S → Prop) (ms : List (Move S A)) : Prop :=
  ∀ pre m post, ms = pre ++ m :: post → Q (pre ++ [m]) m.post

theorem along_snoc {Q : List (Move S A) → S → Prop} {m : Move S A} :
    Along Q (ms ++ [m]) ↔ Along Q ms ∧ Q (ms ++ [m]) m.post := by
  constructor
  · intro h
    exact ⟨fun pre x post hms => h pre x (post ++ [m]) (by rw [hms]; simp), h ms m [] rfl⟩
  · rintro ⟨hold, hlast⟩ pre x post hms
    rcases split_snoc hms with ⟨rfl, rfl, -⟩ | ⟨rest, -, hms⟩
    · exact hlast
    · exact hold pre x rest hms

/-- As `guarded_moves_iff`, for an invariant and a property that look at the moves so far. -/
theorem Path.along_iff {I Q : List (Move S A) → S → Prop} {G : S → A → Prop}
    (h : Path step s ms t) (h0 : I [] s)
    (hs : ∀ past u a v, I past u → G u a → step u a = some v → I (past ++ [⟨u, a, v⟩]) v)
    (hiff : ∀ past u a v, I past u → step u a = some v → (Q (past ++ [⟨u, a, v⟩]) v ↔ G u a)) :
    (Along Q ms ↔ ∀ m ∈ ms, G m.pre m.act) ∧ ((∀ m ∈ ms, G m.pre m.act) → I ms t) := by
  induction h with
  | nil => exact ⟨iff_of_true (fun pre m post he => by simp at he) (by simp), fun _ => h0⟩
  | @snoc ms u v a hp hu ih =>
    simp only [List.forall_mem_append, List.forall_mem_singleton]
    refine ⟨?_, fun hall => hs ms u a v (ih.2 hall.1) hall.2 hu⟩
    rw [along_snoc, ih.1]
    exact and_congr_right fun hall => hiff ms u a v (ih.2 hall) hu

/-- Execute a list of actions, stopping where one is not enabled. -/
def run (step : S → A → Option S) : S → List A → Option S
  | s, [] => some s
  | s, a :: as => (step s a).bind fun u => run step u as

theorem Path.append {u : S} {ns : List (Move S A)} (h : Path step s ms t)
    (h' : Path step t ns u) : Path step s (ms ++ ns) u := by
  induction h' with
  | nil => simpa using h
  | snoc _ hu ih => simpa [List.append_assoc] using ih.snoc hu

/-- An execution is a path that takes exactly the listed actions. -/
theorem path_of_run {as : List A} (h : run step s as = some t) :
    ∃ ms, Path step s ms t ∧ ms.map Move.act = as := by
  induction as generalizing s with
  | nil =>
    have he : s = t := by simpa [run] using h
    subst he
    exact ⟨[], .nil, rfl⟩
  | cons a as ih =>
    obtain ⟨u, hu, hrest⟩ := Option.bind_eq_some_iff.mp h
    obtain ⟨ms, hp, ha⟩ := ih hrest
    have hone : Path step s [⟨s, a, u⟩] u := by simpa using Path.nil.snoc hu
    exact ⟨_, hone.append hp, by simp [ha]⟩

/-- The listed actions lead from one state to another, each taken where it meets the guard. -/
def Meets (step : S → A → Option S) (G : S → A → Prop) : S → List A → S → Prop
  | s, [], t => s = t
  | s, a :: as, t => G s a ∧ ∃ u, step s a = some u ∧ Meets step G u as t

theorem Meets.path {G : S → A → Prop} {as : List A} (h : Meets step G s as t) :
    ∃ ms, Path step s ms t ∧ ∀ m ∈ ms, G m.pre m.act := by
  induction as generalizing s with
  | nil =>
    obtain rfl : s = t := h
    exact ⟨[], .nil, List.forall_mem_nil _⟩
  | cons a as ih =>
    obtain ⟨hg, u, hu, hrest⟩ := h
    obtain ⟨ms, hp, hms⟩ := ih hrest
    have hone : Path step s [⟨s, a, u⟩] u := by simpa using Path.nil.snoc hu
    exact ⟨_, hone.append hp, List.forall_mem_cons.mpr ⟨hg, hms⟩⟩

/-- The steps that meet a guard. -/
def guarded (step : S → A → Option S) (G : S → A → Prop) [∀ s a, Decidable (G s a)] (s : S)
    (a : A) : Option S :=
  if G s a then step s a else none

theorem meets_of_run {G : S → A → Prop} [∀ s a, Decidable (G s a)] {as : List A}
    (h : run (guarded step G) s as = some t) : Meets step G s as t := by
  induction as generalizing s with
  | nil => exact Option.some.inj h
  | cons a as ih =>
    obtain ⟨u, hu, hrest⟩ := Option.bind_eq_some_iff.mp h
    obtain ⟨hg, hstep⟩ := Option.ite_none_right_eq_some.mp hu
    exact ⟨hg, u, hstep, ih hrest⟩

end DericRpc.Lts
