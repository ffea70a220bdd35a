import DericRpc.ThreadLife

/-! DericProcess::deinit after an init that returned 0: IoModule::stop tests a state that the
detached thread sets, and not start. -/
namespace DericRpc.StopThread
open Common Io Lts ThreadLife
variable {M : Type}

/-- IoModule::stop called now succeeds and writes the stop byte, and DericProcess::deinit leaves
m_init false, whatever the threads do between its two calls. -/
structure Stoppable (u : Process M) : Prop where
  stop : 0 ≤ (Io.stop u.io u.kernel false).2.2
  byte : (Io.stop u.io u.kernel false).2.1.pipe = u.kernel.pipe ++ [.stop]
  deinit : ∃ v, step u (.deinitStop false) = some v ∧ ∀ ms w, Path step v ms w →
    (∀ m ∈ ms, ∃ i events, m.act = .thread i events) →
    ∃ x, step w .deinitDeinit = some x ∧ x.init = false

/-- The first step of a thread. -/
def Announces (m : Move (Process M) Act) : Prop :=
  ∃ i events, m.act = .thread i events ∧ m.pre.threads i = some .spawned

/-- The last step of a thread, or IoModule::start for a new one. -/
def Withdraws (m : Move (Process M) Act) : Prop :=
  (∃ refused, m.act = .initStart refused) ∨
    ∃ i events, m.act = .thread i events ∧ m.pre.threads i = some .leaving

/-- A thread that has not announced itself is the only one of its kind, and the module is
STARTED only between its first step and the next stop. -/
structure Inv (u : Process M) : Prop where
  spawned : ∀ i, u.threads i = some .spawned →
    u.ctl = .idle ∧ u.init = true ∧ u.io.state = .initialized
  oneSpawned : ∀ i j, u.threads i = some .spawned → u.threads j = some .spawned → i = j
  started : u.io.state = .started → u.ctl = .idle ∧ u.init = true
  pipe : u.init = true ∨ (∃ i, u.threads i ≠ none) ∨ u.io.state ≠ .created →
    0 ≤ u.io.wakeUpPipeFd.2

theorem inv_fresh {u : Process M} (h : Fresh u) : Inv u where
  spawned i ht := by rw [h.threads i] at ht; cases ht
  oneSpawned i _ ht := by rw [h.threads i] at ht; cases ht
  started hs := by rw [h.state] at hs; cases hs
  pipe hused := by
    rcases hused with hinit | ⟨i, ht⟩ | hs
    · rw [h.init] at hinit
      cases hinit
    · exact absurd (h.threads i) ht
    · exact absurd h.state hs

/-- While a call of init or deinit is under way no thread is about to announce itself. -/
theorem Inv.busy {u : Process M} (hi : Inv u) (hctl : u.ctl ≠ .idle) :
    (∀ i, u.threads i ≠ some .spawned) ∧ u.io.state ≠ .started :=
  ⟨fun i ht => hctl (hi.spawned i ht).1, fun hs => hctl (hi.started hs).1⟩

theorem Inv.uninitialized {u : Process M} (hi : Inv u) (hinit : u.init = false) :
    (∀ i, u.threads i ≠ some .spawned) ∧ u.io.state ≠ .started := by
  constructor
  · intro i ht
    simp [(hi.spawned i ht).2.1] at hinit
  · intro hs
    simp [(hi.started hs).2] at hinit

/-- What the controlling calls leave where no thread is about to announce itself. -/
theorem inv_quiet {u : Process M} (hspawned : ∀ i, u.threads i ≠ some .spawned)
    (hstarted : u.io.state ≠ .started)
    (hpipe : u.init = true ∨ (∃ i, u.threads i ≠ none) ∨ u.io.state ≠ .created →
      0 ≤ u.io.wakeUpPipeFd.2) : Inv u where
  spawned i ht := absurd ht (hspawned i)
  oneSpawned i _ ht := absurd ht (hspawned i)
  started hs := absurd hs hstarted
  pipe := hpipe

/-- init of a module that is not started leaves it so, with the same pipe or the new one. -/
theorem init_cases {io io' : IoModule M} {k k' : Kernel} {size res : Int} {a : InitAnswers}
    (hs : io.state ≠ .started) (h : Io.init io k size a = (io', k', res)) :
    io'.state ≠ .started ∧ (io' = io ∨ ∃ p, a.pipe = some p ∧ io'.wakeUpPipeFd = p) := by
  have hstep := Io.init_step io k size a
  rw [h] at hstep
  cases hstep with
  | skipped _ => exact ⟨hs, .inl rfl⟩
  | noPipe _ _ => exact ⟨hs, .inl rfl⟩
  | noEpoll r w _ hp _ => exact ⟨hs, .inr ⟨(r, w), hp, rfl⟩⟩
  | noEvents r w _ hp _ _ => exact ⟨hs, .inr ⟨(r, w), hp, rfl⟩⟩
  | opened r w _ hp _ _ => exact ⟨by simp, .inr ⟨(r, w), hp, rfl⟩⟩

theorem initInit_inv {u : Process M} (hi : Inv u) {a : InitAnswers} (ha : Grants u.kernel a) :
    Inv (initInit u a) := by
  cases hinit : u.init with
  | true => simpa [initInit, hinit] using hi
  | false =>
    obtain ⟨hspawned, hstarted⟩ := hi.uninitialized hinit
    rcases hout : Io.init u.io u.kernel 1024 a with ⟨io, k, res⟩
    obtain ⟨hstarted', hpipe⟩ := init_cases hstarted hout
    have hused : u.init = true ∨ (∃ i, u.threads i ≠ none) ∨ io.state ≠ .created →
        0 ≤ io.wakeUpPipeFd.2 := by
      intro hused
      rcases hpipe with rfl | ⟨p, hp, he⟩
      · exact hi.pipe hused
      · rw [he]
        exact (ha.2 p hp).2.1
    simp only [initInit, hinit, hout, Bool.false_eq_true, if_false]
    rw [hinit] at hused
    split_ifs <;> exact inv_quiet hspawned hstarted' hused

theorem initStart_inv {u : Process M} (hi : Inv u) (hctl : u.ctl = .initStart) (refused : Bool) :
    Inv (initStart u refused) := by
  obtain ⟨hspawned, hstarted⟩ := hi.busy (by rw [hctl]; decide)
  rcases hout : Io.start u.io u.kernel refused with ⟨k, res, started⟩
  obtain ⟨-, ⟨hres, rfl⟩ | ⟨hres, rfl, hs, -⟩⟩ := start_cases hout
  · simp only [initStart, hout, if_pos hres, Bool.false_eq_true, if_false]
    exact inv_quiet hspawned hstarted hi.pipe
  · simp only [initStart, hout, if_neg (not_lt.mpr hres), if_true]
    have hpipe := hi.pipe (.inr (.inr (by rw [hs]; decide)))
    refine ⟨fun i _ => ⟨rfl, rfl, hs⟩, fun i j hti htj => ?_, fun _ => ⟨rfl, rfl⟩, fun _ => hpipe⟩
    rcases goto_threads hti with ⟨rfl, -⟩ | ⟨-, hold⟩
    · rcases goto_threads htj with ⟨rfl, -⟩ | ⟨-, hold⟩
      · rfl
      · exact absurd hold (hspawned j)
    · exact absurd hold (hspawned i)

theorem initUndo_state {u : Process M} (hs : u.io.state ≠ .started) :
    (initUndo u).io.state ≠ .started := by
  by_cases hinit : u.io.state = .initialized
  · simp [initUndo, Io.deinit, hinit]
  · rwa [initUndo_refused hinit]

theorem initUndo_inv {u : Process M} (hi : Inv u) (hctl : u.ctl ≠ .idle) : Inv (initUndo u) := by
  obtain ⟨hspawned, hstarted⟩ := hi.busy hctl
  refine inv_quiet hspawned (initUndo_state hstarted) fun hused => ?_
  by_cases hs : u.io.state = .initialized
  · simp [initUndo, Io.deinit, hs]
  · rw [initUndo_refused hs] at hused ⊢
    exact hi.pipe hused

theorem deinitStop_inv {u : Process M} (hi : Inv u) (fails : Bool) : Inv (deinitStop u fails) := by
  cases hinit : u.init with
  | false => simpa [deinitStop, hinit] using hi
  | true =>
    rcases hout : Io.stop u.io u.kernel fails with ⟨io, k, res⟩
    rcases stop_cases hout with ⟨rfl, rfl, rfl⟩ | ⟨hres, hs, rfl, rfl⟩
    · simpa [deinitStop, hout] using hi
    · have hspawned (i : Nat) (ht : u.threads i = some .spawned) : False := by
        cases hs.symm.trans (hi.spawned i ht).2.2
      have hstarted : ¬ u.init = false := by simp [hinit]
      simp only [deinitStop, hout, if_neg (not_lt.mpr hres), if_neg hstarted]
      exact inv_quiet (fun i ht => hspawned i ht) (by simp) fun _ => hi.pipe (.inl hinit)

theorem deinitDeinit_inv {u : Process M} (hi : Inv u) (hctl : u.ctl ≠ .idle) :
    Inv (deinitDeinit u) := by
  obtain ⟨hspawned, hstarted⟩ := hi.busy hctl
  rcases deinitDeinit_cases u with ⟨-, he⟩ | ⟨-, he⟩
  · rw [he]
    exact inv_quiet hspawned hstarted hi.pipe
  · rw [he]
    have hundo := initUndo_inv hi hctl
    exact inv_quiet hspawned (initUndo_state hstarted) fun hused =>
      hundo.pipe (.inr (hused.resolve_left (by simp)))

theorem Inv.goto {u : Process M} (hi : Inv u) {i : Nat} {p : ThreadPc} (hp : p ≠ .spawned)
    (ht : u.threads i ≠ none) : Inv (u.goto i p) where
  spawned j hj := by
    rcases goto_threads hj with ⟨-, he⟩ | ⟨-, hold⟩
    · exact absurd he.symm hp
    · exact hi.spawned j hold
  oneSpawned j k hj hk := by
    rcases goto_threads hj with ⟨-, he⟩ | ⟨-, holdj⟩
    · exact absurd he.symm hp
    rcases goto_threads hk with ⟨-, he⟩ | ⟨-, holdk⟩
    · exact absurd he.symm hp
    · exact hi.oneSpawned j k holdj holdk
  started := hi.started
  pipe _ := hi.pipe (.inr (.inl ⟨i, ht⟩))

theorem thread_inv {u v : Process M} (hi : Inv u) {i : Nat} {events : List Int}
    (h : thread u i events = some v) : Inv v := by
  cases thread_cases h with
  | announced ht hv =>
    subst hv
    obtain ⟨hidle, hinit, -⟩ := hi.spawned i ht
    have hgone : Inv (u.goto i (.waiting .wakeup)) := hi.goto (by simp) (by simp [ht])
    have hnone (j : Nat) : (u.goto i (.waiting .wakeup)).threads j ≠ some .spawned := by
      intro hj
      rcases goto_threads hj with ⟨-, he⟩ | ⟨hne, hold⟩
      · cases he
      · exact hne (hi.oneSpawned j i hold ht)
    exact ⟨fun j hj => absurd hj (hnone j), hgone.oneSpawned, fun _ => ⟨hidle, hinit⟩,
      fun _ => hi.pipe (.inl hinit)⟩
  | looped p q pipe ht hp hq hv =>
    subst hv
    have hgone : Inv (u.goto i q) := hi.goto (by rintro rfl; cases hq) (by simp [ht])
    exact ⟨hgone.spawned, hgone.oneSpawned, hgone.started, hgone.pipe⟩
  | left p ht hp hv =>
    subst hv
    exact hi.goto (by simp) (by simp [ht])
  | ended ht hv =>
    subst hv
    have hgone : Inv (u.goto i .done) := hi.goto (by simp) (by simp [ht])
    exact ⟨fun j hj => ⟨(hgone.spawned j hj).1, (hgone.spawned j hj).2.1, rfl⟩, hgone.oneSpawned,
      fun hs => (by cases hs), fun _ => hi.pipe (.inr (.inl ⟨i, by simp [ht]⟩))⟩

theorem step_inv {u v : Process M} {a : Act} (hi : Inv u) (h : step u a = some v) : Inv v := by
  cases a with
  | initInit a =>
    obtain ⟨⟨-, hgrants⟩, rfl⟩ := enabled h
    exact initInit_inv hi hgrants
  | initStart refused =>
    obtain ⟨hctl, rfl⟩ := enabled h
    exact initStart_inv hi hctl refused
  | initUndo =>
    obtain ⟨hctl, rfl⟩ := enabled h
    exact initUndo_inv hi (by rw [hctl]; decide)
  | deinitStop fails =>
    obtain ⟨-, rfl⟩ := enabled h
    exact deinitStop_inv hi fails
  | deinitDeinit =>
    obtain ⟨hctl, rfl⟩ := enabled h
    exact deinitDeinit_inv hi (by rw [hctl]; decide)
  | thread i events => exact thread_inv hi h

theorem stop_of_started {u : Process M} (hi : Inv u) (hs : u.io.state = .started) :
    Io.stop u.io u.kernel false = ({ u.io with state := .initialized },
      { u.kernel with pipe := u.kernel.pipe ++ [.stop] }, 1) := by
  have hpipe : ¬ u.io.wakeUpPipeFd.2 < 0 := not_lt.mpr (hi.pipe (.inr (.inr (by rw [hs]; decide))))
  simp [Io.stop, hs, hpipe]

theorem thread_stopped {u v : Process M} (hi : Inv u) {i : Nat} {events : List Int}
    (hctl : u.ctl = .deinitDeinit) (hs : u.io.state = .initialized)
    (h : thread u i events = some v) : v.ctl = .deinitDeinit ∧ v.io.state = .initialized := by
  cases thread_cases h with
  | announced ht hv =>
    rw [(hi.spawned i ht).1] at hctl
    cases hctl
  | looped p q pipe ht hp hq hv =>
    subst hv
    exact ⟨hctl, hs⟩
  | left p ht hp hv =>
    subst hv
    exact ⟨hctl, hs⟩
  | ended ht hv =>
    subst hv
    exact ⟨hctl, rfl⟩

theorem stoppable_iff_started {u : Process M} (hi : Inv u) (hinit : u.init = true)
    (hidle : u.ctl = .idle) : Stoppable u ↔ u.io.state = .started := by
  constructor
  · intro h
    rcases hout : Io.stop u.io u.kernel false with ⟨io, k, res⟩
    have hres := h.stop
    rw [hout] at hres
    rcases stop_cases hout with ⟨rfl, -, -⟩ | ⟨-, hs, -, -⟩
    · exact absurd hres (show ¬ (0 : Int) ≤ -1 by decide)
    · exact hs
  · intro hs
    have hstop := stop_of_started hi hs
    have hstep : step u (.deinitStop false) = some (deinitStop u false) := if_pos hidle
    refine ⟨by simp [hstop], by simp [hstop], _, hstep, fun ms w h hthreads => ?_⟩
    -- the threads may run, and none of them announces itself any more
    have hkept : Inv w ∧ w.ctl = .deinitDeinit ∧ w.io.state = .initialized := by
      refine h.guarded (I := fun x => Inv x ∧ x.ctl = .deinitDeinit ∧ x.io.state = .initialized)
        (G := fun _ a => ∃ i events, a = Act.thread i events)
        ⟨step_inv hi hstep, by simp [deinitStop, hinit, hstop], by simp [deinitStop, hinit, hstop]⟩
        ?_ hthreads
      rintro x a y ⟨hx, hctl, hsx⟩ ⟨i, events, rfl⟩ hxy
      exact ⟨step_inv hx hxy, thread_stopped hx hctl hsx hxy⟩
    obtain ⟨-, hctl, hsw⟩ := hkept
    refine ⟨deinitDeinit w, if_pos hctl, ?_⟩
    rcases deinitDeinit_cases w with ⟨hnot, -⟩ | ⟨-, he⟩
    · exact absurd hsw hnot
    · rw [he]

theorem initInit_state {u : Process M} (a : InitAnswers) (hs : u.io.state ≠ .started) :
    (initInit u a).io.state ≠ .started := by
  rcases hout : Io.init u.io u.kernel 1024 a with ⟨io, k, res⟩
  unfold initInit
  simp only [hout]
  split_ifs
  · exact hs
  · exact (init_cases hs hout).1
  · exact (init_cases hs hout).1

theorem initStart_io (u : Process M) (refused : Bool) : (initStart u refused).io = u.io := by
  simp only [initStart]
  split_ifs <;> rfl

theorem deinitStop_state {u : Process M} {fails : Bool}
    (hs : (deinitStop u fails).io.state = .started) : u.io.state = .started := by
  rcases hout : Io.stop u.io u.kernel fails with ⟨io, k, res⟩
  unfold deinitStop at hs
  simp only [hout] at hs
  rcases stop_cases hout with ⟨-, rfl, -⟩ | ⟨-, hstarted, -, -⟩
  · split_ifs at hs <;> exact hs
  · exact hstarted

theorem deinitDeinit_state {u : Process M} (hs : u.io.state ≠ .started) :
    (deinitDeinit u).io.state ≠ .started := by
  rcases deinitDeinit_cases u with ⟨-, he⟩ | ⟨-, he⟩
  · rwa [he]
  · rw [he]
    exact initUndo_state hs

/-- A step behind which the module is STARTED is the first one of a thread, or found it so and
is not one that withdraws it. -/
theorem step_started {u v : Process M} {a : Act} (hi : Inv u) (h : step u a = some v)
    (hs : v.io.state = .started) :
    Announces ⟨u, a, v⟩ ∨ (u.io.state = .started ∧ ¬Withdraws ⟨u, a, v⟩) := by
  cases a with
  | initInit a =>
    obtain ⟨-, rfl⟩ := enabled h
    refine .inr ⟨by_contra fun hnot => initInit_state a hnot hs, ?_⟩
    rintro (⟨_, ⟨⟩⟩ | ⟨_, _, ⟨⟩, _⟩)
  | initStart refused =>
    obtain ⟨hctl, rfl⟩ := enabled h
    rw [initStart_io] at hs
    exact absurd hs (hi.busy (by rw [hctl]; decide)).2
  | initUndo =>
    obtain ⟨hctl, rfl⟩ := enabled h
    exact absurd hs (initUndo_state (hi.busy (by rw [hctl]; decide)).2)
  | deinitStop fails =>
    obtain ⟨-, rfl⟩ := enabled h
    refine .inr ⟨deinitStop_state hs, ?_⟩
    rintro (⟨_, ⟨⟩⟩ | ⟨_, _, ⟨⟩, _⟩)
  | deinitDeinit =>
    obtain ⟨hctl, rfl⟩ := enabled h
    exact absurd hs (deinitDeinit_state (hi.busy (by rw [hctl]; decide)).2)
  | thread i events =>
    cases thread_cases h with
    | announced ht hv => exact .inl ⟨i, events, rfl, ht⟩
    | looped p q pipe ht hp hq hv =>
      subst hv
      refine .inr ⟨hs, ?_⟩
      rintro (⟨_, ⟨⟩⟩ | ⟨_, _, ⟨⟩, hleaving⟩)
      exact (inLoop_between ht hp).2 hleaving
    | left p ht hp hv =>
      subst hv
      refine .inr ⟨hs, ?_⟩
      rintro (⟨_, ⟨⟩⟩ | ⟨_, _, ⟨⟩, hleaving⟩)
      exact (inLoop_between ht hp).2 hleaving
    | ended ht hv =>
      subst hv
      cases hs

/-- What the first step of a thread leaves until another one ends or a new one is started: the
module is STARTED, or the stop of deinit was let in, or deinit has taken it down. -/
def Announced (u : Process M) : Prop :=
  u.io.state = .started ∨ (u.ctl = .deinitDeinit ∧ u.io.state = .initialized) ∨ u.init = false

theorem step_announces {u v : Process M} {a : Act} (h : step u a = some v)
    (ha : Announces ⟨u, a, v⟩) : Announced v := by
  obtain ⟨i, events, rfl, ht⟩ := ha
  cases thread_cases h with
  | announced _ hv =>
    subst hv
    exact .inl rfl
  | looped p q pipe ht' hp hq hv => exact absurd ht (inLoop_between ht' hp).1
  | left p ht' hp hv => exact absurd ht (inLoop_between ht' hp).1
  | ended ht' hv => cases ht.symm.trans ht'

theorem deinitStop_announced {u : Process M} (h : Announced u) (fails : Bool) :
    Announced (deinitStop u fails) := by
  cases hinit : u.init with
  | false => simpa [deinitStop, hinit] using h
  | true =>
    rcases hout : Io.stop u.io u.kernel fails with ⟨io, k, res⟩
    rcases stop_cases hout with ⟨rfl, rfl, rfl⟩ | ⟨hres, -, rfl, rfl⟩
    · simpa [deinitStop, hout] using h
    · simp [deinitStop, hinit, hout, not_lt.mpr hres, Announced]

theorem deinitDeinit_announced {u : Process M} (hi : Inv u) (hctl : u.ctl = .deinitDeinit)
    (h : Announced u) : Announced (deinitDeinit u) := by
  refine .inr (.inr ?_)
  rcases deinitDeinit_cases u with ⟨hnot, he⟩ | ⟨-, he⟩
  · rw [he]
    rcases h with hs | ⟨-, hs⟩ | hinit
    · exact absurd hs (hi.busy (by rw [hctl]; decide)).2
    · exact absurd hs hnot
    · exact hinit
  · rw [he]

theorem step_announced {u v : Process M} {a : Act} (hi : Inv u) (hu : Announced u)
    (h : step u a = some v) (hkept : ¬Withdraws ⟨u, a, v⟩) : Announced v := by
  cases a with
  | initInit a =>
    obtain ⟨-, rfl⟩ := enabled h
    cases hinit : u.init with
    | true => simpa [initInit, hinit] using hu
    | false =>
      refine .inr (.inr ?_)
      simp only [initInit, hinit, Bool.false_eq_true, if_false]
      split_ifs <;> rfl
  | initStart refused => exact absurd (.inl ⟨refused, rfl⟩) hkept
  | initUndo =>
    obtain ⟨hctl, rfl⟩ := enabled h
    rcases hu with hs | ⟨hdeinit, -⟩ | hinit
    · exact absurd hs (hi.busy (by rw [hctl]; decide)).2
    · cases hctl.symm.trans hdeinit
    · exact .inr (.inr hinit)
  | deinitStop fails =>
    obtain ⟨-, rfl⟩ := enabled h
    exact deinitStop_announced hu fails
  | deinitDeinit =>
    obtain ⟨hctl, rfl⟩ := enabled h
    exact deinitDeinit_announced hi hctl hu
  | thread i events =>
    cases thread_cases h with
    | announced ht hv =>
      subst hv
      exact .inl rfl
    | looped p q pipe ht hp hq hv =>
      subst hv
      exact hu
    | left p ht hp hv =>
      subst hv
      exact hu
    | ended ht hv => exact absurd (.inr ⟨i, events, rfl, ht⟩) hkept

/-- In every run of init, deinit and their threads, a module that init has left initialized can
be stopped and taken down exactly when, since the last start, its thread has taken its first
step and no thread has ended. -/
theorem stoppable_iff_announced {u v : Process M} {ms : List (Move (Process M) Act)}
    (hu : Fresh u) (h : Path step u ms v) (hinit : v.init = true) (hidle : v.ctl = .idle) :
    Stoppable v ↔ Since (fun _ m => Announces m) Withdraws ms := by
  have hstep {x y : Process M} {a : Act} (hi : Inv x) (hxy : step x a = some y) : Inv y :=
    step_inv hi hxy
  rw [stoppable_iff_started (h.invariant (inv_fresh hu) fun _ _ _ => hstep) hinit hidle]
  constructor
  · refine h.since (R := fun x => x.io.state = .started) (by simp [hu.state])
      fun pre x a y hpre hxy hs => ?_
    exact step_started (hpre.invariant (inv_fresh hu) fun _ _ _ => hstep) hxy hs
  · intro hsince
    have hv : Announced v := h.of_since (inv_fresh hu) (fun _ _ _ => hstep)
      (fun _ _ _ _ _ hxy ha => step_announces hxy ha)
      (fun _ _ _ hi hx hxy hkept => step_announced hi hx hxy hkept) hsince
    rcases hv with hs | ⟨hdeinit, -⟩ | hnot
    · exact hs
    · cases hidle.symm.trans hdeinit
    · cases hinit.symm.trans hnot

def initActs : List Act := [.initInit ⟨some (3, 4), 5, true⟩, .initStart false]

theorem stoppable_iff_announced_thread :
    ∃ (ms : List (Move (Process Unit) Act)) (v : Process Unit), Path step newProcess ms v ∧
      (Stoppable v ↔ Since (fun _ m => Announces m) Withdraws ms) ∧ Stoppable v := by
  have hrun : ∃ u v, run step newProcess initActs = some u ∧ u.threads 0 = some .spawned ∧
      step u (.thread 0 []) = some v ∧ v.init = true ∧ v.ctl = .idle :=
    ⟨_, _, rfl, rfl, rfl, rfl, rfl⟩
  obtain ⟨u, v, hu, hspawned, hv, hinit, hidle⟩ := hrun
  obtain ⟨ms, hp, -⟩ := path_of_run hu
  have hiff := stoppable_iff_announced newProcess_fresh (hp.snoc hv) hinit hidle
  exact ⟨_, v, hp.snoc hv, hiff, hiff.mpr (.of_last ⟨0, [], rfl, hspawned⟩)⟩

/-- deinit right behind an init that returned 0, before the new thread has run. -/
theorem stop_before_thread :
    ¬ ∀ (u v : Process Unit) (ms : List (Move (Process Unit) Act)), Fresh u → Path step u ms v →
      (∀ m ∈ ms, ∀ fails, m.act ≠ .deinitStop fails) → v.init = true → v.ctl = .idle →
      Stoppable v := by
  intro h
  have hrun : ∃ v, run step newProcess initActs = some v ∧ v.init = true ∧ v.ctl = .idle ∧
      (Io.stop v.io v.kernel false).2.2 = -1 := ⟨_, rfl, rfl, rfl, rfl⟩
  obtain ⟨v, hv, hinit, hidle, hstop⟩ := hrun
  obtain ⟨ms, hp, hacts⟩ := path_of_run hv
  have hnone : ∀ m ∈ ms, ∀ fails, m.act ≠ .deinitStop fails := by
    intro m hm fails
    have hact : m.act ∈ initActs := hacts ▸ List.mem_map_of_mem hm
    simp only [initActs, List.mem_cons, List.not_mem_nil, or_false] at hact
    rcases hact with hact | hact <;> simp [hact]
  have hres := (h newProcess v ms newProcess_fresh hp hnone hinit hidle).stop
  rw [hstop] at hres
  exact absurd hres (by decide)

end DericRpc.StopThread
