import DericRpc.IoTable
import DericRpc.ThreadLife

/-! IoModule through init, start, stop and deinit in any order, with the threads it starts:
what m_state says about the descriptors, and when the module can be started again. -/
namespace DericRpc.Restart
open Common Io IoTable Lts ThreadLife
variable {M : Type}

/-- The calls are IoModule's own; DericProcess, whose fields stay as they are, is not there. -/
inductive Act where
  | init (epollSize : Int) (a : InitAnswers)
  | start (refused : Bool)
  | stop (fails : Bool)
  | deinit
  | thread (i : Nat) (events : List Int)

def start (u : Process M) (refused : Bool) : Process M :=
  let out := Io.start u.io u.kernel refused
  let u := { u with kernel := out.1 }
  if out.2.2 = true then { u.goto u.count .spawned with count := u.count + 1 } else u

def step (u : Process M) : Act → Option (Process M)
  | .init epollSize a =>
    if Grants u.kernel a then
      let out := Io.init u.io u.kernel epollSize a
      some { u with io := out.1, kernel := out.2.1 }
    else none
  | .start refused => some (start u refused)
  | .stop fails =>
    let out := Io.stop u.io u.kernel fails
    some { u with io := out.1, kernel := out.2.1 }
  | .deinit =>
    let out := Io.deinit u.io u.kernel
    some { u with io := out.1, kernel := out.2.1 }
  | .thread i events => thread u i events

structure Resources (u : Process M) : Prop where
  epollFd : u.kernel.isOpen u.io.epollFd = true
  epollEvents : u.io.epollEvents = true
  readEnd : u.kernel.isOpen u.io.wakeUpPipeFd.1 = true
  writeEnd : u.kernel.isOpen u.io.wakeUpPipeFd.2 = true

/-- m_state says INITIALIZED or more only of a module that has everything. -/
def Truthful (u : Process M) : Prop :=
  ComponentState.initialized.rank ≤ u.io.state.rank → Resources u

/-- A thread's first step and its last, which write m_state, find the module not taken down. -/
def WritesLive (u : Process M) : Act → Prop
  | .thread i _ => u.threads i = some .spawned ∨ u.threads i = some .leaving →
      u.io.state ≠ .created
  | _ => True

def Granted (a : InitAnswers) : Prop := a.pipe ≠ none ∧ 0 ≤ a.epoll ∧ a.events = true

/-- An init that gets what it asks for, on a module that is not initialized. -/
def Opens (m : Move (Process M) Act) : Prop :=
  ∃ epollSize a, m.act = .init epollSize a ∧ m.pre.io.state = .created ∧ Granted a

/-- A start or a deinit of an initialized module. -/
def Uses (m : Move (Process M) Act) : Prop :=
  (m.act = .start false ∨ m.act = .deinit) ∧ m.pre.io.state = .initialized

/-- As the constructor leaves it. -/
structure Constructed (u : Process M) : Prop extends Fresh u where
  epollEvents : u.io.epollEvents = false

structure Inv (u : Process M) : Prop where
  sane : Sane u.io u.kernel
  held : u.io.epollEvents = true → Resources u
  created : u.io.state = .created → u.io.epollEvents = false

theorem Constructed.inv {u : Process M} (h : Constructed u) : Inv u where
  sane := h.sane
  held hevents := by simp [h.epollEvents] at hevents
  created _ := h.epollEvents

/-- An initialized module is left as it is; any other gets all or stays without the array. -/
theorem init_outcome {io io' : IoModule M} {k k' : Kernel} {size res : Int} {a : InitAnswers}
    (hevents : io.state = .created → io.epollEvents = false)
    (h : Io.init io k size a = (io', k', res)) :
    (io.state ≠ .created ∧ io' = io ∧ k' = k) ∨
    (io.state = .created ∧ ¬Granted a ∧ io'.state = .created ∧ io'.epollEvents = false) ∨
    (io.state = .created ∧ Granted a ∧ io'.state = .initialized ∧ io'.epollEvents = true ∧
      k'.isOpen io'.epollFd = true ∧ k'.isOpen io'.wakeUpPipeFd.1 = true ∧
      k'.isOpen io'.wakeUpPipeFd.2 = true ∧ k'.interest io'.wakeUpPipeFd.1 = false) := by
  have hstep := init_step io k size a
  rw [h] at hstep
  cases hstep with
  | skipped hs => exact .inl ⟨hs, rfl, rfl⟩
  | noPipe hs hp => exact .inr (.inl ⟨hs, fun hg => hg.1 hp, hs, hevents hs⟩)
  | noEpoll r w hs _ hepoll =>
    exact .inr (.inl ⟨hs, fun hg => absurd hg.2.1 (not_le.mpr hepoll), hs, hevents hs⟩)
  | noEvents r w hs _ _ ha =>
    exact .inr (.inl ⟨hs, fun hg => absurd (ha.symm.trans hg.2.2) (by simp), hs, rfl⟩)
  | opened r w hs hp hepoll ha =>
    refine .inr (.inr ⟨hs, ⟨by simp [hp], hepoll, ha⟩, rfl, rfl, ?_, ?_, ?_, rfl⟩)
    · simp [Kernel.openFd]
    · simp [Kernel.openFd, Function.update_apply]
    · simp [Kernel.openFd, Function.update_apply]

theorem Inv.keep {u v : Process M} (h : Inv u) (hopen : v.kernel.isOpen = u.kernel.isOpen)
    (hepoll : v.io.epollFd = u.io.epollFd) (hevents : v.io.epollEvents = u.io.epollEvents)
    (hpipe : v.io.wakeUpPipeFd = u.io.wakeUpPipeFd)
    (hstate : v.io.state = .created → u.io.state = .created) : Inv v where
  sane := by
    refine ⟨?_, ?_⟩
    · rw [hopen]
      exact h.sane.open_nonneg
    · rw [hopen, hepoll, hevents]
      exact h.sane.epollEvents
  held := by
    intro hv
    obtain ⟨hfd, he, hr, hw⟩ := h.held (hevents ▸ hv)
    constructor
    · rwa [hopen, hepoll]
    · exact hv
    · rwa [hopen, hpipe]
    · rwa [hopen, hpipe]
  created := by
    intro hv
    rw [hevents]
    exact h.created (hstate hv)

theorem thread_frame {u v : Process M} {i : Nat} {events : List Int}
    (h : thread u i events = some v) :
    v.kernel.isOpen = u.kernel.isOpen ∧ v.kernel.interest = u.kernel.interest ∧
      v.io.epollFd = u.io.epollFd ∧ v.io.epollEvents = u.io.epollEvents ∧
      v.io.wakeUpPipeFd = u.io.wakeUpPipeFd ∧
      ((u.threads i = some .spawned ∧ v.io.state = .started) ∨
        (u.threads i = some .leaving ∧ v.io.state = .initialized) ∨
        (u.threads i ≠ some .spawned ∧ u.threads i ≠ some .leaving ∧
          v.io.state = u.io.state)) := by
  cases thread_cases h with
  | announced ht hv =>
    subst hv
    exact ⟨rfl, rfl, rfl, rfl, rfl, .inl ⟨ht, rfl⟩⟩
  | looped p q pipe ht hp hq hv =>
    subst hv
    obtain ⟨hspawned, hleaving⟩ := inLoop_between ht hp
    exact ⟨rfl, rfl, rfl, rfl, rfl, .inr (.inr ⟨hspawned, hleaving, rfl⟩)⟩
  | left p ht hp hv =>
    subst hv
    obtain ⟨hspawned, hleaving⟩ := inLoop_between ht hp
    exact ⟨rfl, rfl, rfl, rfl, rfl, .inr (.inr ⟨hspawned, hleaving, rfl⟩)⟩
  | ended ht hv =>
    subst hv
    exact ⟨rfl, rfl, rfl, rfl, rfl, .inr (.inl ⟨ht, rfl⟩)⟩

/-- A start changes nothing of the module, and of the descriptors nothing but the watch of the
pipe. -/
theorem start_frame (u : Process M) (refused : Bool) :
    (start u refused).io = u.io ∧ (start u refused).kernel.isOpen = u.kernel.isOpen := by
  rcases hout : Io.start u.io u.kernel refused with ⟨k, res, started⟩
  have hopen := (start_cases hout).1
  simp only [start, hout]
  split_ifs
  · exact ⟨rfl, hopen⟩
  · exact ⟨rfl, hopen⟩

theorem deinit_initialized {u : Process M} (hs : u.io.state = .initialized) :
    (Io.deinit u.io u.kernel).1.state = .created ∧
      (Io.deinit u.io u.kernel).1.epollEvents = false := by
  constructor
  · simp [Io.deinit, hs]
  · simp [Io.deinit, hs]

theorem init_inv {u : Process M} (hi : Inv u) (epollSize : Int) {a : InitAnswers}
    (ha : Grants u.kernel a) :
    Inv { u with
      io := (Io.init u.io u.kernel epollSize a).1
      kernel := (Io.init u.io u.kernel epollSize a).2.1 } := by
  rcases hout : Io.init u.io u.kernel epollSize a with ⟨io, k, res⟩
  have hsane := hi.sane.init (fun r w hp => ⟨(ha.2 _ hp).1, (ha.2 _ hp).2.1⟩) hout
  rcases init_outcome hi.created hout with
    ⟨-, rfl, rfl⟩ | ⟨-, -, -, hevents⟩ | ⟨-, -, hstate, hevents, hfd, hr, hw, -⟩
  · exact hi
  · exact ⟨hsane, fun hv => absurd (hevents.symm.trans hv) (by simp), fun _ => hevents⟩
  · exact ⟨hsane, fun _ => ⟨hfd, hevents, hr, hw⟩,
      fun hc => absurd (hstate.symm.trans hc) (by simp)⟩

theorem step_inv {u v : Process M} {a : Act} (hi : Inv u) (h : step u a = some v) : Inv v := by
  cases a with
  | init epollSize a =>
    obtain ⟨hgrants, rfl⟩ := enabled h
    exact init_inv hi epollSize hgrants
  | start refused =>
    obtain rfl := Option.some.inj h
    obtain ⟨hio, hopen⟩ := start_frame u refused
    exact hi.keep hopen (by rw [hio]) (by rw [hio]) (by rw [hio]) (by rw [hio]; exact id)
  | stop fails =>
    obtain rfl := Option.some.inj h
    rcases hout : Io.stop u.io u.kernel fails with ⟨io, k, res⟩
    rcases stop_cases hout with ⟨-, rfl, rfl⟩ | ⟨-, -, rfl, rfl⟩
    · exact hi
    · exact hi.keep rfl rfl rfl rfl (by simp)
  | deinit =>
    obtain rfl := Option.some.inj h
    by_cases hs : u.io.state = .initialized
    · obtain ⟨-, hevents⟩ := deinit_initialized hs
      exact ⟨hi.sane.deinit, fun hv => absurd (hevents.symm.trans hv) (by simp), fun _ => hevents⟩
    · rw [deinit_of_not_initialized u.kernel hs]
      exact hi
  | thread i events =>
    obtain ⟨hopen, -, hepoll, hevents, hpipe, hstate⟩ := thread_frame h
    refine hi.keep hopen hepoll hevents hpipe fun hv => ?_
    rcases hstate with ⟨-, hs⟩ | ⟨-, hs⟩ | ⟨-, -, hs⟩
    · cases hs.symm.trans hv
    · cases hs.symm.trans hv
    · exact hs.symm.trans hv

theorem Inv.truthful_iff {u : Process M} (hi : Inv u) :
    Truthful u ↔ (u.io.state ≠ .created → u.io.epollEvents = true) := by
  rw [Truthful, ← not_lt, rank_lt_initialized]
  exact ⟨fun h hs => (h hs).epollEvents, fun h hs => hi.held (h hs)⟩

theorem step_truthful {u v : Process M} {a : Act} (hi : Inv u) (ht : Truthful u)
    (hlive : WritesLive u a) (h : step u a = some v) : Truthful v := by
  have hv := step_inv hi h
  rw [hi.truthful_iff] at ht
  rw [hv.truthful_iff]
  cases a with
  | init epollSize a =>
    obtain ⟨hgrants, rfl⟩ := enabled h
    rcases hout : Io.init u.io u.kernel epollSize a with ⟨io, k, res⟩
    rcases init_outcome hi.created hout with
      ⟨-, rfl, -⟩ | ⟨-, -, hstate, -⟩ | ⟨-, -, -, hevents, -⟩
    · exact ht
    · exact fun hne => absurd hstate hne
    · exact fun _ => hevents
  | start refused =>
    obtain rfl := Option.some.inj h
    rwa [(start_frame u refused).1]
  | stop fails =>
    obtain rfl := Option.some.inj h
    rcases hout : Io.stop u.io u.kernel fails with ⟨io, k, res⟩
    rcases stop_cases hout with ⟨-, rfl, rfl⟩ | ⟨-, hs, rfl, rfl⟩
    · exact ht
    · exact fun _ => ht (by simp [hs])
  | deinit =>
    obtain rfl := Option.some.inj h
    by_cases hs : u.io.state = .initialized
    · exact fun hne => absurd (deinit_initialized hs).1 hne
    · rwa [deinit_of_not_initialized u.kernel hs]
  | thread i events =>
    obtain ⟨-, -, -, hevents, -, hstate⟩ := thread_frame h
    rw [hevents]
    rcases hstate with ⟨hspawned, -⟩ | ⟨hleaving, -⟩ | ⟨-, -, hs⟩
    · exact fun _ => ht (hlive (.inl hspawned))
    · exact fun _ => ht (hlive (.inr hleaving))
    · rwa [hs]

/-- A thread that writes m_state of a module that is taken down makes it lie. -/
theorem writesLive_of_truthful {u v : Process M} {a : Act} (hi : Inv u) (h : step u a = some v)
    (ht : Truthful v) : WritesLive u a := by
  cases a with
  | thread i events =>
    intro hwrites hs
    have hv := (step_inv hi h).truthful_iff.mp ht
    obtain ⟨-, -, -, hevents, -, hstate⟩ := thread_frame h
    have hne : v.io.state ≠ .created := by
      rcases hstate with ⟨-, hs⟩ | ⟨-, hs⟩ | ⟨hspawned, hleaving, -⟩
      · simp [hs]
      · simp [hs]
      · exact absurd hwrites (not_or.mpr ⟨hspawned, hleaving⟩)
    have hgone := hi.created hs
    rw [← hevents, hv hne] at hgone
    cases hgone
  | _ => trivial

/-- The module has its descriptors, and epoll does not watch the pipe. -/
def Unused (u : Process M) : Prop :=
  u.io.epollEvents = true ∧ u.kernel.interest u.io.wakeUpPipeFd.1 = false

theorem modifyEpollEvent_watched {io : IoModule M} {k : Kernel} {fd : Int} (refused : Bool)
    (h : k.interest fd = true) : modifyEpollEvent io k .add fd refused = (k, -1) := by
  unfold modifyEpollEvent
  split_ifs
  · rfl
  · rfl
  · simp [Kernel.epollCtl, h]

/-- An initialized module can be started exactly when it has all and epoll does not know the
pipe yet. -/
theorem start_succeeds_iff {u : Process M} (hi : Inv u) (hs : u.io.state = .initialized) :
    0 ≤ (Io.start u.io u.kernel false).2.1 ↔ Unused u := by
  have hres : (Io.start u.io u.kernel false).2.1 =
      (modifyEpollEvent u.io u.kernel .add u.io.wakeUpPipeFd.1 false).2 := by
    simp only [Io.start, hs, ne_eq, not_true_eq_false, if_false]
    split_ifs <;> rfl
  rw [hres]
  constructor
  · intro hadd
    have hreaches : Reaches u.io u.kernel u.io.wakeUpPipeFd.1 false := by
      by_contra hnot
      rw [modifyEpollEvent_fails hnot] at hadd
      exact absurd hadd (show ¬(0 : Int) ≤ -1 by decide)
    refine ⟨hi.sane.epollEvents hreaches.epoll_open, ?_⟩
    by_contra hwatched
    rw [modifyEpollEvent_watched false (eq_true_of_ne_false hwatched)] at hadd
    exact absurd hadd (show ¬(0 : Int) ≤ -1 by decide)
  · rintro ⟨hevents, hwatch⟩
    obtain ⟨hepoll, -, hr, -⟩ := hi.held hevents
    have hreaches : Reaches u.io u.kernel u.io.wakeUpPipeFd.1 false :=
      ⟨by simp [hs], hi.sane.open_nonneg _ hepoll, hi.sane.open_nonneg _ hr, rfl, hepoll, hr⟩
    rw [(modifyEpollEvent_reaches hreaches).1 hwatch]

theorem start_interest (u : Process M) (refused : Bool) :
    (start u refused).kernel.interest =
      if 0 ≤ (Io.start u.io u.kernel refused).2.1 then
        Function.update u.kernel.interest u.io.wakeUpPipeFd.1 true
      else u.kernel.interest := by
  have hkernel : (start u refused).kernel = (Io.start u.io u.kernel refused).1 := by
    simp only [start]
    split_ifs <;> rfl
  rw [hkernel]
  by_cases hs : u.io.state = .initialized
  · rcases modifyEpollEvent_add u.io u.kernel u.io.wakeUpPipeFd.1 refused with hadd | ⟨-, hadd⟩
    · simp [Io.start, hs, hadd]
    · simp [Io.start, hs, hadd]
  · simp [Io.start, hs]

theorem start_unused_iff {u : Process M} (hi : Inv u) (refused : Bool) :
    Unused (start u refused) ↔ Unused u ∧ ¬(refused = false ∧ u.io.state = .initialized) := by
  have hunused : Unused (start u refused) ↔ u.io.epollEvents = true ∧
      (start u refused).kernel.interest u.io.wakeUpPipeFd.1 = false := by
    rw [Unused, (start_frame u refused).1]
  rw [hunused, start_interest]
  by_cases hcall : refused = false ∧ u.io.state = .initialized
  · obtain ⟨rfl, hs⟩ := hcall
    by_cases hfree : Unused u
    · rw [if_pos ((start_succeeds_iff hi hs).mpr hfree)]
      simp [hs]
    · rw [if_neg (mt (start_succeeds_iff hi hs).mp hfree)]
      exact iff_of_false hfree fun h => hfree h.1
  · have hfails : (Io.start u.io u.kernel refused).2.1 = -1 := by
      by_cases hs : u.io.state = .initialized
      · have hr : ¬Reaches u.io u.kernel u.io.wakeUpPipeFd.1 refused := fun h =>
          hcall ⟨h.allowed, hs⟩
        simp [Io.start, hs, modifyEpollEvent_fails hr]
      · simp [Io.start, hs]
    rw [hfails, if_neg (by decide)]
    exact (and_iff_left hcall).symm

/-- The module becomes ready for a start by an init that opens it, and is so until it is started
or taken down. -/
theorem step_unused_iff {u v : Process M} {a : Act} (hi : Inv u) (h : step u a = some v) :
    Unused v ↔ Opens ⟨u, a, v⟩ ∨ (Unused u ∧ ¬Uses ⟨u, a, v⟩) := by
  cases a with
  | init epollSize a =>
    obtain ⟨-, rfl⟩ := enabled h
    have huses {w : Process M} : ¬Uses ⟨u, .init epollSize a, w⟩ := by simp [Uses]
    rcases hout : Io.init u.io u.kernel epollSize a with ⟨io, k, res⟩
    have hgone (hs : u.io.state = .created) : ¬Unused u := fun hu => by
      simp [Unused, hi.created hs] at hu
    rcases init_outcome hi.created hout with
      ⟨hs, rfl, rfl⟩ | ⟨hs, hrefused, -, hevents⟩ | ⟨hs, hgranted, -, hevents, -, -, -, hwatch⟩
    · have hopens {w : Process M} : ¬Opens ⟨u, .init epollSize a, w⟩ := by
        rintro ⟨_, _, -, hcreated, -⟩
        exact hs hcreated
      simp [hopens, huses, Unused]
    · refine iff_of_false (fun hv => ?_) (not_or.mpr ⟨?_, fun hu => hgone hs hu.1⟩)
      · cases hevents.symm.trans hv.1
      · rintro ⟨_, _, ⟨⟩, -, hgranted⟩
        exact hrefused hgranted
    · exact iff_of_true ⟨hevents, hwatch⟩ (.inl ⟨epollSize, a, rfl, hs, hgranted⟩)
  | start refused =>
    obtain rfl := Option.some.inj h
    have hopens : ¬Opens ⟨u, .start refused, start u refused⟩ := by simp [Opens]
    simp only [hopens, false_or, start_unused_iff hi, Uses, Act.start.injEq, reduceCtorEq, or_false]
  | stop fails =>
    obtain rfl := Option.some.inj h
    have hopens {w : Process M} : ¬Opens ⟨u, .stop fails, w⟩ := by simp [Opens]
    have huses {w : Process M} : ¬Uses ⟨u, .stop fails, w⟩ := by simp [Uses]
    rcases hout : Io.stop u.io u.kernel fails with ⟨io, k, res⟩
    rcases stop_cases hout with ⟨-, rfl, rfl⟩ | ⟨-, -, rfl, rfl⟩
    · simp [hopens, huses, Unused]
    · simp [hopens, huses, Unused]
  | deinit =>
    obtain rfl := Option.some.inj h
    have hopens {w : Process M} : ¬Opens ⟨u, .deinit, w⟩ := by simp [Opens]
    by_cases hs : u.io.state = .initialized
    · refine iff_of_false (fun hv => ?_) (not_or.mpr ⟨hopens, fun hu => hu.2 ⟨.inr rfl, hs⟩⟩)
      cases (deinit_initialized hs).2.symm.trans hv.1
    · have huses {w : Process M} : ¬Uses ⟨u, .deinit, w⟩ := fun huses => hs huses.2
      simp [deinit_of_not_initialized u.kernel hs, hopens, huses, Unused]
  | thread i events =>
    have hopens : ¬Opens ⟨u, .thread i events, v⟩ := by simp [Opens]
    have huses : ¬Uses ⟨u, .thread i events, v⟩ := by simp [Uses]
    obtain ⟨-, hinterest, -, hevents, hpipe, -⟩ := thread_frame h
    simp [hopens, huses, Unused, hinterest, hevents, hpipe]

/-- In every run of init, start, stop and deinit with their threads: m_state tells the truth
exactly when no thread writes it while the module is taken down; and an initialized module
can be started exactly when, since the last init that opened it, it was neither started nor
taken down. -/
theorem truthful_and_startable_iff {u v : Process M} {ms : List (Move (Process M) Act)}
    (hu : Constructed u) (h : Path step u ms v) :
    ((∀ m ∈ ms, Truthful m.post) ↔ ∀ m ∈ ms, WritesLive m.pre m.act) ∧
    (v.io.state = .initialized →
      (0 ≤ (Io.start v.io v.kernel false).2.1 ↔ Since (fun _ m => Opens m) Uses ms)) := by
  have hstep (x : Process M) (a : Act) (y : Process M) (hi : Inv x) (hxy : step x a = some y) :
      Inv y := step_inv hi hxy
  constructor
  · have hfirst : Truthful u := by
      rw [hu.inv.truthful_iff]
      exact fun hs => absurd hu.state hs
    refine h.guarded_iff (I := fun x => Inv x ∧ Truthful x) ⟨hu.inv, hfirst⟩ ?_
      (fun _ => And.right) ?_
    · exact fun x a y hx hlive hxy => ⟨step_inv hx.1 hxy, step_truthful hx.1 hx.2 hlive hxy⟩
    · exact fun x a y hx hxy hy => writesLive_of_truthful hx.1 hxy hy
  · intro hs
    rw [start_succeeds_iff (h.invariant hu.inv hstep) hs]
    refine h.since_iff hu.inv (fun hgone => ?_) hstep fun _ x a y hx hxy => step_unused_iff hx hxy
    simp [hu.epollEvents, Unused] at hgone

theorem newProcess_constructed : Constructed newProcess := ⟨newProcess_fresh, rfl⟩

def initAct : Act := .init 1024 ⟨some (3, 4), 5, true⟩

theorem truthful_and_startable_iff_init :
    ∃ (ms : List (Move (Process Unit) Act)) (v : Process Unit), Path step newProcess ms v ∧
      ((∀ m ∈ ms, Truthful m.post) ↔ ∀ m ∈ ms, WritesLive m.pre m.act) ∧
      (0 ≤ (Io.start v.io v.kernel false).2.1 ↔ Since (fun _ m => Opens m) Uses ms) ∧
      Since (fun _ m => Opens m) Uses ms := by
  have hrun : ∃ v, run step newProcess [initAct] = some v ∧ v.io.state = .initialized ∧
      (Io.start v.io v.kernel false).2.1 = 0 := ⟨_, rfl, rfl, rfl⟩
  obtain ⟨v, hv, hs, hres⟩ := hrun
  obtain ⟨ms, hp, -⟩ := path_of_run hv
  obtain ⟨htruthful, hstart⟩ := truthful_and_startable_iff newProcess_constructed hp
  exact ⟨ms, v, hp, htruthful, hstart hs, (hstart hs).mp (by rw [hres])⟩

/-- A session up to the last step of its thread. -/
def sessionActs : List Act :=
  [initAct, .start false, .thread 0 [], .stop false, .thread 0 [3], .thread 0 [], .thread 0 []]

/-- The thread ends behind deinit; and a session that has ended cannot be followed by another. -/
theorem state_lies_and_start_fails :
    (¬ ∀ (u v : Process Unit) (ms : List (Move (Process Unit) Act)), Constructed u →
      Path step u ms v → Truthful v) ∧
    ¬ ∀ (u v : Process Unit) (ms : List (Move (Process Unit) Act)), Constructed u →
      Path step u ms v → v.io.state = .initialized →
      (∀ i p, v.threads i = some p → p = .done) → 0 ≤ (Io.start v.io v.kernel false).2.1 := by
  constructor
  · intro h
    have hrun : ∃ v, run step newProcess (sessionActs ++ [.deinit, .thread 0 []]) = some v ∧
        v.io.state = .initialized ∧ v.io.epollEvents = false := ⟨_, rfl, rfl, rfl⟩
    obtain ⟨v, hv, hs, hevents⟩ := hrun
    obtain ⟨ms, hp, -⟩ := path_of_run hv
    have hgone := (h newProcess v ms newProcess_constructed hp (by rw [hs])).epollEvents
    cases hevents.symm.trans hgone
  · intro h
    have hrun : ∃ v, run step newProcess (sessionActs ++ [.thread 0 []]) = some v ∧
        v.io.state = .initialized ∧ v.threads 0 = some .done ∧ (∀ i, v.threads (i + 1) = none) ∧
        (Io.start v.io v.kernel false).2.1 = -1 := ⟨_, rfl, rfl, rfl, fun _ => rfl, rfl⟩
    obtain ⟨v, hv, hs, hdone, hnone, hstart⟩ := hrun
    obtain ⟨ms, hp, -⟩ := path_of_run hv
    have hgone (i : Nat) (p : ThreadPc) (ht : v.threads i = some p) : p = .done := by
      cases i with
      | zero => exact (Option.some.inj (hdone.symm.trans ht)).symm
      | succ i => cases (hnone i).symm.trans ht
    have hres := h newProcess v ms newProcess_constructed hp hs hgone
    rw [hstart] at hres
    exact absurd hres (by decide)

end DericRpc.Restart
