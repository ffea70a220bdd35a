import DericRpc.IoModule
import DericRpc.Lib.Lts
import Mathlib.Tactic.SplitIfs

/-! DericProcess::init and deinit against the detached threads that run waitThreadFunc: who
is in the loop when the epoll instance and its array go away. -/
namespace DericRpc.ThreadLife
open Common Io Lts

/-- Where a thread is in waitThreadFunc: not yet run, before epoll_wait, in a batch, behind
the loop, or gone. The flag is wakeup_flag. -/
inductive ThreadPc where
  | spawned
  | waiting (flag : WakeFlag)
  | handling (flag : WakeFlag) (events : List Int)
  | leaving
  | done

def ThreadPc.inLoop : ThreadPc → Bool
  | .waiting _ | .handling _ _ => true
  | _ => false

/-- Between its first step and its last. -/
def ThreadPc.running : ThreadPc → Bool
  | .spawned | .done => false
  | _ => true

/-- The next call of the DericProcess function that holds m_initMutex. -/
inductive Ctl where
  | idle
  | initStart
  | initUndo
  | deinitDeinit
  deriving DecidableEq

structure Process (M : Type) where
  io : IoModule M := {}
  kernel : Kernel := {}
  init : Bool := false
  ctl : Ctl := .idle
  threads : Nat → Option ThreadPc := fun _ => none
  count : Nat := 0

inductive Act where
  | initInit (a : InitAnswers)
  | initStart (refused : Bool)
  | initUndo
  | deinitStop (fails : Bool)
  | deinitDeinit
  | thread (i : Nat) (events : List Int)

variable {M : Type}

def Process.goto (u : Process M) (i : Nat) (p : ThreadPc) : Process M :=
  { u with threads := Function.update u.threads i (some p) }

/-- The kernel gives descriptors that are not open. -/
def Grants (k : Kernel) (a : InitAnswers) : Prop :=
  k.isOpen a.epoll = false ∧ ∀ p ∈ a.pipe, 0 ≤ p.1 ∧ 0 ≤ p.2 ∧ p.1 ≠ p.2 ∧ p.1 ≠ a.epoll ∧
    p.2 ≠ a.epoll ∧ k.isOpen p.1 = false ∧ k.isOpen p.2 = false

instance (k : Kernel) (a : InitAnswers) : Decidable (Grants k a) :=
  inferInstanceAs (Decidable (_ ∧ _))

def initInit (u : Process M) (a : InitAnswers) : Process M :=
  if u.init = true then u
  else
    let out := Io.init u.io u.kernel 1024 a
    let u := { u with io := out.1, kernel := out.2.1 }
    if out.2.2 < 0 then u else { u with ctl := .initStart }

def initStart (u : Process M) (refused : Bool) : Process M :=
  let out := Io.start u.io u.kernel refused
  let u := { u with kernel := out.1 }
  let u := if out.2.2 = true then { u.goto u.count .spawned with count := u.count + 1 } else u
  if out.2.1 < 0 then { u with ctl := .initUndo } else { u with init := true, ctl := .idle }

def initUndo (u : Process M) : Process M :=
  let out := Io.deinit u.io u.kernel
  { u with io := out.1, kernel := out.2.1, ctl := .idle }

def deinitStop (u : Process M) (fails : Bool) : Process M :=
  if u.init = false then u
  else
    let out := Io.stop u.io u.kernel fails
    let u := { u with io := out.1, kernel := out.2.1 }
    if out.2.2 < 0 then u else { u with ctl := .deinitDeinit }

def deinitDeinit (u : Process M) : Process M :=
  let out := Io.deinit u.io u.kernel
  let u := { u with io := out.1, kernel := out.2.1, ctl := .idle }
  if out.2.2 < 0 then u else { u with init := false }

/-- epoll_wait returns watched descriptors, the pipe's only when it has something to read;
on an instance that is not open, nothing. -/
def Reported (u : Process M) (events : List Int) : Prop :=
  (events.length : Int) ≤ u.io.maxEpollSize ∧ (events = [] ∨ u.kernel.isOpen u.io.epollFd = true) ∧
    ∀ fd ∈ events, u.kernel.interest fd = true ∧
      (fd = u.io.wakeUpPipeFd.1 → u.kernel.pipe ≠ [])

instance (u : Process M) (events : List Int) : Decidable (Reported u events) :=
  inferInstanceAs (Decidable (_ ∧ _ ∧ _))

/-- waitThreadFunc's next step; a member's handler touches none of this state. -/
def thread (u : Process M) (i : Nat) (events : List Int) : Option (Process M) :=
  match u.threads i with
  | none | some .done => none
  | some .spawned =>
    some ({ u with io := { u.io with state := .started } }.goto i (.waiting .wakeup))
  | some (.waiting flag) =>
    if Reported u events then some (u.goto i (.handling flag events)) else none
  | some (.handling flag (fd :: rest)) =>
    if fd = u.io.wakeUpPipeFd.1 ∧ u.kernel.isOpen fd = true then
      match u.kernel.pipe with
      | [] => none
      | byte :: pipe =>
        some ({ u with kernel := { u.kernel with pipe := pipe } }.goto i (.handling byte rest))
    else some (u.goto i (.handling flag rest))
  | some (.handling flag []) => some (u.goto i (if flag = .stop then .leaving else .waiting flag))
  | some .leaving =>
    some ({ u with io := { u.io with state := .initialized } }.goto i .done)

def step (u : Process M) : Act → Option (Process M)
  | .initInit a =>
    if u.ctl = .idle ∧ Grants u.kernel a then some (initInit u a) else none
  | .initStart refused => if u.ctl = .initStart then some (initStart u refused) else none
  | .initUndo => if u.ctl = .initUndo then some (initUndo u) else none
  | .deinitStop fails => if u.ctl = .idle then some (deinitStop u fails) else none
  | .deinitDeinit => if u.ctl = .deinitDeinit then some (deinitDeinit u) else none
  | .thread i events => thread u i events

/-- At most one thread runs, and the loop has its epoll instance and its array. -/
structure Sound (u : Process M) : Prop where
  single : ∀ i j p q, u.threads i = some p → u.threads j = some q →
    p.running = true → q.running = true → i = j
  resources : ∀ i p, u.threads i = some p → p.inLoop = true →
    u.kernel.isOpen u.io.epollFd = true ∧ u.io.epollEvents = true

/-- A deinit that takes effect finds no thread in the loop, and a thread that announces
itself finds no other one running. -/
def Ordered (u : Process M) : Act → Prop
  | .initUndo | .deinitDeinit => u.io.state = .initialized →
      ∀ i p, u.threads i = some p → p.inLoop = false
  | .thread i _ => u.threads i = some .spawned →
      ∀ j p, u.threads j = some p → p.running = false
  | _ => True

/-- A deinit that takes effect finds every thread gone. -/
def Joined (u : Process M) : Act → Prop
  | .initUndo | .deinitDeinit => u.io.state = .initialized →
      ∀ i p, u.threads i = some p → p = .done
  | _ => True

/-- What one step of thread `i` does: it announces itself, goes on in the loop, leaves it,
or ends. -/
inductive ThreadCase (u v : Process M) (i : Nat) : Prop
  | announced (ht : u.threads i = some .spawned)
      (hv : v = { u with io := { u.io with state := .started } }.goto i (.waiting .wakeup))
  | looped (p q : ThreadPc) (pipe : List WakeFlag) (ht : u.threads i = some p)
      (hp : p.inLoop = true) (hq : q.inLoop = true)
      (hv : v = { u with kernel := { u.kernel with pipe := pipe } }.goto i q)
  | left (p : ThreadPc) (ht : u.threads i = some p) (hp : p.inLoop = true)
      (hv : v = u.goto i .leaving)
  | ended (ht : u.threads i = some .leaving)
      (hv : v = { u with io := { u.io with state := .initialized } }.goto i .done)

theorem thread_cases {u v : Process M} {i : Nat} {events : List Int}
    (h : thread u i events = some v) : ThreadCase u v i := by
  cases ht : u.threads i with
  | none => simp [thread, ht] at h
  | some p =>
    cases p with
    | spawned =>
      simp only [thread, ht, Option.some.injEq] at h
      exact .announced ht h.symm
    | waiting flag =>
      simp only [thread, ht] at h
      obtain ⟨-, hv⟩ := enabled h
      exact .looped _ _ u.kernel.pipe ht rfl rfl hv.symm
    | handling flag batch =>
      cases batch with
      | nil =>
        simp only [thread, ht, Option.some.injEq] at h
        cases flag with
        | stop => exact .left _ ht rfl h.symm
        | wakeup => exact .looped _ _ u.kernel.pipe ht rfl rfl h.symm
      | cons fd rest =>
        by_cases hread : fd = u.io.wakeUpPipeFd.1 ∧ u.kernel.isOpen fd = true
        · cases hpipe : u.kernel.pipe with
          | nil => simp only [thread, ht, if_pos hread, hpipe, reduceCtorEq] at h
          | cons byte pipe =>
            simp only [thread, ht, if_pos hread, hpipe, Option.some.injEq] at h
            exact .looped _ _ pipe ht rfl rfl h.symm
        · simp only [thread, ht, if_neg hread, Option.some.injEq] at h
          exact .looped _ _ u.kernel.pipe ht rfl rfl h.symm
    | leaving =>
      simp only [thread, ht, Option.some.injEq] at h
      exact .ended ht h.symm
    | done => simp [thread, ht] at h

theorem inLoop_between {u : Process M} {i : Nat} {p : ThreadPc} (ht : u.threads i = some p)
    (hp : p.inLoop = true) : u.threads i ≠ some .spawned ∧ u.threads i ≠ some .leaving := by
  constructor
  · intro hspawned
    cases ht.symm.trans hspawned
    cases hp
  · intro hleaving
    cases ht.symm.trans hleaving
    cases hp

theorem goto_threads {u : Process M} {i j : Nat} {p q : ThreadPc}
    (h : (u.goto i p).threads j = some q) : (j = i ∧ q = p) ∨ (j ≠ i ∧ u.threads j = some q) := by
  by_cases hj : j = i
  · subst hj
    exact .inl ⟨rfl, by simpa [Process.goto, eq_comm] using h⟩
  · exact .inr ⟨hj, by simpa [Process.goto, hj] using h⟩

theorem initUndo_refused {u : Process M} (h : u.io.state ≠ .initialized) :
    initUndo u = { u with ctl := .idle } := by
  simp [initUndo, deinit_of_not_initialized u.kernel h]

/-- DericProcess::deinit ends as a failed init does, and m_init is false when the module
was taken down. -/
theorem deinitDeinit_cases (u : Process M) :
    (u.io.state ≠ .initialized ∧ deinitDeinit u = { u with ctl := .idle }) ∨
      (u.io.state = .initialized ∧ deinitDeinit u = { initUndo u with init := false }) := by
  by_cases hs : u.io.state = .initialized
  · exact .inr ⟨hs, by simp [deinitDeinit, initUndo, Io.deinit, hs]⟩
  · exact .inl ⟨hs, by simp [deinitDeinit, deinit_of_not_initialized u.kernel hs]⟩

theorem initUndo_events {u : Process M} (h : u.io.state = .initialized) :
    (initUndo u).io.epollEvents = false := by
  simp [initUndo, Io.deinit, h]

theorem Sound.inLoop_false {u : Process M} (h : Sound u) (hevents : u.io.epollEvents = false)
    (i : Nat) (p : ThreadPc) (ht : u.threads i = some p) : p.inLoop = false := by
  by_contra hp
  have hevents' := (h.resources i p ht (by simpa using hp)).2
  rw [hevents] at hevents'
  cases hevents'

theorem Sound.thread_ordered {u v : Process M} {i : Nat} {events : List Int}
    (h : thread u i events = some v) (hv : Sound v) : Ordered u (.thread i events) := by
  intro hspawned j p ht
  -- the only step of a thread that has just been spawned
  obtain rfl : { u with io := { u.io with state := .started } }.goto i (.waiting .wakeup) = v := by
    simpa [thread, hspawned] using h
  by_contra hp
  have hj : j ≠ i := by
    rintro rfl
    obtain rfl := Option.some.inj (hspawned.symm.trans ht)
    exact hp rfl
  exact hj (hv.single j i p (.waiting .wakeup) (by simpa [Process.goto, hj] using ht)
    (by simp [Process.goto]) (by simpa using hp) rfl)

/-- A step that is out of order is seen at once. -/
theorem Sound.ordered {u v : Process M} {a : Act} (h : step u a = some v) (hv : Sound v) :
    Ordered u a := by
  cases a with
  | initUndo =>
    obtain ⟨-, rfl⟩ := enabled h
    exact fun hs => hv.inLoop_false (initUndo_events hs)
  | deinitDeinit =>
    obtain ⟨-, rfl⟩ := enabled h
    intro hs
    rcases deinitDeinit_cases u with ⟨hnot, -⟩ | ⟨-, he⟩
    · exact absurd hs hnot
    · rw [he] at hv
      exact hv.inLoop_false (initUndo_events hs)
  | thread i events => exact hv.thread_ordered h
  | _ => trivial

/-- What orderly steps keep. A thread that has not announced itself belongs to the last
init, whose module nobody can take down before it has. -/
structure Safe (u : Process M) : Prop where
  sane : Sane u.io u.kernel
  single : ∀ i j p q, u.threads i = some p → u.threads j = some q →
    p.running = true → q.running = true → i = j
  looping : ∀ i p, u.threads i = some p → p.inLoop = true →
    u.io.state ≠ .created ∧ u.kernel.isOpen u.io.epollFd = true
  spawned : ∀ i, u.threads i = some .spawned →
    u.ctl = .idle ∧ u.init = true ∧ u.io.state = .initialized ∧
      u.kernel.isOpen u.io.epollFd = true
  oneSpawned : ∀ i j, u.threads i = some .spawned → u.threads j = some .spawned → i = j

theorem Safe.sound {u : Process M} (h : Safe u) : Sound u where
  single := h.single
  resources i p ht hp :=
    have hopen := (h.looping i p ht hp).2
    ⟨hopen, h.sane.epollEvents hopen⟩

/-- While no thread can look at the module, the controlling calls may do to it what they
like. -/
theorem Safe.reset {u v : Process M} (h : Safe u) (hthreads : v.threads = u.threads)
    (hsane : Sane v.io v.kernel)
    (hquiet : ∀ i p, u.threads i = some p → p ≠ .spawned ∧ p.inLoop = false) : Safe v where
  sane := hsane
  single := hthreads ▸ h.single
  looping i p ht hp := by
    rw [(hquiet i p (hthreads ▸ ht)).2] at hp
    cases hp
  spawned i ht := absurd rfl (hquiet i _ (hthreads ▸ ht)).1
  oneSpawned i _ ht := absurd rfl (hquiet i _ (hthreads ▸ ht)).1

/-- Steps that leave the module and the descriptors as they are. -/
theorem Safe.control {u : Process M} (h : Safe u) (k : Kernel) (hk : k.isOpen = u.kernel.isOpen)
    {ctl : Ctl} {init : Bool}
    (hspawned : ∀ i, u.threads i = some .spawned → ctl = .idle ∧ init = true) :
    Safe { u with kernel := k, ctl := ctl, init := init } where
  sane := ⟨fun fd hfd => h.sane.open_nonneg fd (hk ▸ hfd),
    fun hopen => h.sane.epollEvents (hk ▸ hopen)⟩
  single := h.single
  looping i p ht hp := by simpa only [hk] using h.looping i p ht hp
  spawned i ht := by
    obtain ⟨-, -, hs, hopen⟩ := h.spawned i ht
    exact ⟨(hspawned i ht).1, (hspawned i ht).2, hs, by simpa only [hk] using hopen⟩
  oneSpawned := h.oneSpawned

theorem Safe.setState {u : Process M} (h : Safe u) {s : ComponentState} (hs : s ≠ .created)
    (hspawned : ∀ i, u.threads i = some .spawned → s = .initialized) :
    Safe { u with io := { u.io with state := s } } where
  sane := ⟨h.sane.open_nonneg, h.sane.epollEvents⟩
  single := h.single
  looping i p ht hp := ⟨hs, (h.looping i p ht hp).2⟩
  spawned i ht := by
    obtain ⟨hidle, hinit, -, hopen⟩ := h.spawned i ht
    exact ⟨hidle, hinit, hspawned i ht, hopen⟩
  oneSpawned := h.oneSpawned

theorem Safe.goto {u : Process M} (h : Safe u) {i : Nat} {p : ThreadPc}
    (hrunning : p.running = true → ∀ j q, j ≠ i → u.threads j = some q → q.running = false)
    (hlooping : p.inLoop = true → u.io.state ≠ .created ∧ u.kernel.isOpen u.io.epollFd = true)
    (hspawned : p ≠ .spawned) : Safe (u.goto i p) where
  sane := h.sane
  single j₁ j₂ q₁ q₂ h₁ h₂ hq₁ hq₂ := by
    rcases goto_threads h₁ with ⟨rfl, rfl⟩ | ⟨hj₁, ht₁⟩
    · rcases goto_threads h₂ with ⟨rfl, -⟩ | ⟨hj₂, ht₂⟩
      · rfl
      · exact absurd hq₂ (by simp [hrunning hq₁ j₂ q₂ hj₂ ht₂])
    · rcases goto_threads h₂ with ⟨rfl, rfl⟩ | ⟨-, ht₂⟩
      · exact absurd hq₁ (by simp [hrunning hq₂ j₁ q₁ hj₁ ht₁])
      · exact h.single j₁ j₂ q₁ q₂ ht₁ ht₂ hq₁ hq₂
  looping j q ht hq := by
    rcases goto_threads ht with ⟨-, rfl⟩ | ⟨-, ht'⟩
    · exact hlooping hq
    · exact h.looping j q ht' hq
  spawned j ht := by
    rcases goto_threads ht with ⟨-, rfl⟩ | ⟨-, ht'⟩
    · exact absurd rfl hspawned
    · exact h.spawned j ht'
  oneSpawned j₁ j₂ h₁ h₂ := by
    rcases goto_threads h₁ with ⟨-, rfl⟩ | ⟨-, ht₁⟩
    · exact absurd rfl hspawned
    rcases goto_threads h₂ with ⟨-, rfl⟩ | ⟨-, ht₂⟩
    · exact absurd rfl hspawned
    · exact h.oneSpawned j₁ j₂ ht₁ ht₂

/-- A thread that runs keeps the others from running wherever it goes. -/
theorem Safe.others {u : Process M} (h : Safe u) {i : Nat} {p : ThreadPc}
    (ht : u.threads i = some p) (hp : p.running = true) (j : Nat) (q : ThreadPc) (hj : j ≠ i)
    (hq : u.threads j = some q) : q.running = false := by
  by_contra hrun
  exact hj (h.single j i q p hq ht (by simpa using hrun) hp)

theorem initInit_safe {u : Process M} (h : Safe u) {a : InitAnswers} (ha : Grants u.kernel a) :
    Safe (initInit u a) := by
  cases hinit : u.init with
  | true => simpa [initInit, hinit] using h
  | false =>
    have hnone (i : Nat) (ht : u.threads i = some .spawned) : False := by
      have hinit' := (h.spawned i ht).2.1
      rw [hinit] at hinit'
      cases hinit'
    by_cases hs : u.io.state = .created
    · cases hout : Io.init u.io u.kernel 1024 a with
      | mk io rest =>
        obtain ⟨k, res⟩ := rest
        have hsane := h.sane.init (fun r w hp => ⟨(ha.2 _ hp).1, (ha.2 _ hp).2.1⟩) hout
        refine h.reset ?_ ?_ fun i p ht => ⟨?_, ?_⟩
        · simp only [initInit, hinit, hout, Bool.false_eq_true, if_false]
          split_ifs <;> rfl
        · simp only [initInit, hinit, hout, Bool.false_eq_true, if_false]
          split_ifs <;> exact hsane
        · rintro rfl
          exact hnone i ht
        · by_contra hp
          exact (h.looping i p ht (by simpa using hp)).1 hs
    · simp only [initInit, hinit, init_of_initialized u.kernel 1024 a hs]
      exact h.control _ rfl fun i ht => (hnone i ht).elim

theorem initStart_safe {u : Process M} (h : Safe u) (hctl : u.ctl = .initStart) (refused : Bool) :
    Safe (initStart u refused) := by
  have hnone (i : Nat) (ht : u.threads i = some .spawned) : False := by
    have hidle := (h.spawned i ht).1
    rw [hctl] at hidle
    cases hidle
  rcases hout : Io.start u.io u.kernel refused with ⟨k, res, started⟩
  obtain ⟨hk, ⟨hres, rfl⟩ | ⟨hres, rfl, hs, hopen⟩⟩ := start_cases hout
  · simp only [initStart, hout, if_pos hres, Bool.false_eq_true, if_false]
    exact h.control k hk fun i ht => (hnone i ht).elim
  · simp only [initStart, hout, if_neg (not_lt.mpr hres), if_true]
    have hold : Safe { u with kernel := k, ctl := .idle, init := true } :=
      h.control k hk fun i ht => (hnone i ht).elim
    refine ⟨hold.sane, fun i j p q hi hj hp hq => ?_, fun i p ht hp => ?_,
      fun i _ => ⟨rfl, rfl, hs, (congrFun hk _).trans hopen⟩, fun i j hi hj => ?_⟩
    · rcases goto_threads hi with ⟨-, rfl⟩ | ⟨-, hi'⟩
      · cases hp
      rcases goto_threads hj with ⟨-, rfl⟩ | ⟨-, hj'⟩
      · cases hq
      · exact h.single i j p q hi' hj' hp hq
    · rcases goto_threads ht with ⟨-, rfl⟩ | ⟨-, ht'⟩
      · cases hp
      · exact hold.looping i p ht' hp
    -- the new thread is the only one that has not announced itself
    · rcases goto_threads hi with ⟨rfl, -⟩ | ⟨-, hi'⟩
      · rcases goto_threads hj with ⟨rfl, -⟩ | ⟨-, hj'⟩
        · rfl
        · exact (hnone j hj').elim
      · exact (hnone i hi').elim

theorem initUndo_safe {u : Process M} (h : Safe u) (hctl : u.ctl ≠ .idle)
    (hordered : u.io.state = .initialized → ∀ i p, u.threads i = some p → p.inLoop = false) :
    Safe (initUndo u) := by
  have hnone (i : Nat) (ht : u.threads i = some .spawned) : False := hctl (h.spawned i ht).1
  by_cases hs : u.io.state = .initialized
  · refine h.reset rfl h.sane.deinit fun i p ht => ⟨?_, hordered hs i p ht⟩
    rintro rfl
    exact hnone i ht
  · rw [initUndo_refused hs]
    exact h.control _ rfl fun i ht => (hnone i ht).elim

theorem deinitStop_safe {u : Process M} (h : Safe u) (fails : Bool) :
    Safe (deinitStop u fails) := by
  cases hinit : u.init with
  | false => simpa [deinitStop, hinit] using h
  | true =>
    rcases hout : Io.stop u.io u.kernel fails with ⟨io, k, res⟩
    rcases stop_cases hout with ⟨rfl, rfl, rfl⟩ | ⟨hres, hs, rfl, rfl⟩
    · simpa [deinitStop, hout] using h
    · have hnone (i : Nat) (ht : u.threads i = some .spawned) : False := by
        have hs' := (h.spawned i ht).2.2.1
        rw [hs] at hs'
        cases hs'
      have hstate : Safe { u with io := { u.io with state := .initialized } } :=
        h.setState (by decide) fun _ _ => rfl
      have hstarted : ¬ u.init = false := by simp [hinit]
      simp only [deinitStop, hout, if_neg (not_lt.mpr hres), if_neg hstarted]
      exact hstate.control { u.kernel with pipe := u.kernel.pipe ++ [.stop] } rfl fun i ht => (hnone i ht).elim

theorem deinitDeinit_safe {u : Process M} (h : Safe u) (hctl : u.ctl ≠ .idle)
    (hordered : u.io.state = .initialized → ∀ i p, u.threads i = some p → p.inLoop = false) :
    Safe (deinitDeinit u) := by
  have hnone (i : Nat) (ht : u.threads i = some .spawned) : False := hctl (h.spawned i ht).1
  rcases deinitDeinit_cases u with ⟨hs, he⟩ | ⟨hs, he⟩
  · rw [he]
    exact h.control _ rfl fun i ht => (hnone i ht).elim
  · rw [he]
    refine h.reset rfl h.sane.deinit fun i p ht => ⟨?_, hordered hs i p ht⟩
    rintro rfl
    exact hnone i ht

theorem thread_safe {u v : Process M} (h : Safe u) {i : Nat} {events : List Int}
    (hordered : Ordered u (.thread i events)) (hstep : thread u i events = some v) : Safe v := by
  cases thread_cases hstep with
  | announced ht hv =>
    subst hv
    obtain ⟨-, -, hs, hopen⟩ := h.spawned i ht
    have hgone : Safe (u.goto i (.waiting .wakeup)) :=
      h.goto (fun _ j q _ hq => hordered ht j q hq) (fun _ => ⟨by simp [hs], hopen⟩) nofun
    refine hgone.setState (s := .started) (by decide) fun j hj => ?_
    rcases goto_threads hj with ⟨-, he⟩ | ⟨hne, hj'⟩
    · cases he
    · exact absurd (h.oneSpawned j i hj' ht) hne
  | looped p q pipe ht hp hq hv =>
    subst hv
    have hpipe : Safe { u with kernel := { u.kernel with pipe := pipe } } :=
      h.control { u.kernel with pipe := pipe } rfl fun j hj => ⟨(h.spawned j hj).1, (h.spawned j hj).2.1⟩
    have hrun : p.running = true := by cases p <;> first | rfl | cases hp
    refine hpipe.goto (fun _ => h.others ht hrun) (fun _ => h.looping i p ht hp) ?_
    rintro rfl
    cases hq
  | left p ht hp hv =>
    subst hv
    have hrun : p.running = true := by cases p <;> first | rfl | cases hp
    exact h.goto (fun _ => h.others ht hrun) nofun nofun
  | ended ht hv =>
    subst hv
    have hstate : Safe { u with io := { u.io with state := .initialized } } :=
      h.setState (by decide) fun _ _ => rfl
    exact hstate.goto nofun nofun nofun

theorem step_safe {u v : Process M} {a : Act} (h : Safe u) (ha : Ordered u a)
    (hstep : step u a = some v) : Safe v := by
  cases a with
  | initInit a =>
    obtain ⟨⟨-, hgrants⟩, rfl⟩ := enabled hstep
    exact initInit_safe h hgrants
  | initStart refused =>
    obtain ⟨hctl, rfl⟩ := enabled hstep
    exact initStart_safe h hctl refused
  | initUndo =>
    obtain ⟨hctl, rfl⟩ := enabled hstep
    exact initUndo_safe h (by simp [hctl]) ha
  | deinitStop fails =>
    obtain ⟨-, rfl⟩ := enabled hstep
    exact deinitStop_safe h fails
  | deinitDeinit =>
    obtain ⟨hctl, rfl⟩ := enabled hstep
    exact deinitDeinit_safe h (by simp [hctl]) ha
  | thread i events => exact thread_safe h ha hstep

/-- While the process is not initialized every thread is gone, and so is every other one
when a new thread has not announced itself. -/
structure Alone (u : Process M) : Prop where
  controlled : u.ctl = .initStart ∨ u.ctl = .initUndo → u.init = false
  gone : u.init = false → ∀ i p, u.threads i = some p → p = .done
  spawned : ∀ i, u.threads i = some .spawned → ∀ j p, j ≠ i → u.threads j = some p → p = .done

theorem Alone.ordered {u : Process M} (h : Alone u) {a : Act} (ha : Joined u a) :
    Ordered u a := by
  cases a with
  | initUndo | deinitDeinit =>
    intro hs i p ht
    obtain rfl := ha hs i p ht
    rfl
  | thread i events =>
    intro hspawned j p ht
    by_cases hj : j = i
    · subst hj
      obtain rfl := Option.some.inj (hspawned.symm.trans ht)
      rfl
    · obtain rfl := h.spawned i hspawned j p hj ht
      rfl
  | _ => trivial

theorem Alone.goto {u : Process M} (h : Alone u) {i : Nat} {p q : ThreadPc}
    (ht : u.threads i = some p) (hp : p ≠ .done) (hq : q ≠ .spawned) : Alone (u.goto i q) where
  controlled := h.controlled
  gone hinit := absurd (h.gone hinit i p ht) hp
  spawned j hj k r hk hr := by
    rcases goto_threads hj with ⟨-, he⟩ | ⟨hji, hj'⟩
    · exact absurd he.symm hq
    · exact absurd (h.spawned j hj' i p hji.symm ht) hp

theorem initStart_alone {u : Process M} (h : Alone u) (hctl : u.ctl = .initStart)
    (refused : Bool) : Alone (initStart u refused) := by
  have hinit := h.controlled (.inl hctl)
  rcases hout : Io.start u.io u.kernel refused with ⟨k, res, started⟩
  obtain ⟨-, ⟨hres, rfl⟩ | ⟨hres, rfl, -, -⟩⟩ := start_cases hout
  · simp only [initStart, hout, if_pos hres, Bool.false_eq_true, if_false]
    exact ⟨fun _ => hinit, h.gone, h.spawned⟩
  · simp only [initStart, hout, if_neg (not_lt.mpr hres), if_true]
    refine ⟨fun hctl' => by simp at hctl', nofun, fun i hi j p hj ht => ?_⟩
    rcases goto_threads ht with ⟨rfl, -⟩ | ⟨-, ht'⟩
    · rcases goto_threads hi with ⟨rfl, -⟩ | ⟨-, hi'⟩
      · exact absurd rfl hj
      · cases h.gone hinit i _ hi'
    · exact h.gone hinit j p ht'

theorem thread_alone {u v : Process M} (h : Alone u) {i : Nat} {events : List Int}
    (hstep : thread u i events = some v) : Alone v := by
  cases thread_cases hstep with
  | announced ht hv =>
    subst hv
    have hgone : Alone (u.goto i (.waiting .wakeup)) := h.goto ht nofun nofun
    exact ⟨hgone.controlled, hgone.gone, hgone.spawned⟩
  | looped p q pipe ht hp hq hv =>
    subst hv
    have hgone : Alone (u.goto i q) := h.goto ht (by rintro rfl; cases hp) (by rintro rfl; cases hq)
    exact ⟨hgone.controlled, hgone.gone, hgone.spawned⟩
  | left p ht hp hv =>
    subst hv
    exact h.goto ht (by rintro rfl; cases hp) nofun
  | ended ht hv =>
    subst hv
    have hgone : Alone (u.goto i .done) := h.goto ht nofun nofun
    exact ⟨hgone.controlled, hgone.gone, hgone.spawned⟩

theorem step_alone {u v : Process M} {a : Act} (h : Alone u) (ha : Joined u a)
    (hstep : step u a = some v) : Alone v := by
  cases a with
  | initInit a =>
    obtain ⟨-, rfl⟩ := enabled hstep
    cases hinit : u.init with
    | true => simpa [initInit, hinit] using h
    | false =>
      simp only [initInit, hinit, Bool.false_eq_true, if_false]
      split_ifs
      · exact ⟨fun _ => rfl, fun _ => h.gone hinit, h.spawned⟩
      · exact ⟨fun _ => rfl, fun _ => h.gone hinit, h.spawned⟩
  | initStart refused =>
    obtain ⟨hctl, rfl⟩ := enabled hstep
    exact initStart_alone h hctl refused
  | initUndo =>
    obtain ⟨-, rfl⟩ := enabled hstep
    exact ⟨fun hctl => by simp [initUndo] at hctl, h.gone, h.spawned⟩
  | deinitStop fails =>
    obtain ⟨-, rfl⟩ := enabled hstep
    simp only [deinitStop]
    split_ifs
    · exact h
    · exact ⟨h.controlled, h.gone, h.spawned⟩
    · exact ⟨fun hctl' => by simp at hctl', h.gone, h.spawned⟩
  | deinitDeinit =>
    obtain ⟨-, rfl⟩ := enabled hstep
    rcases deinitDeinit_cases u with ⟨-, he⟩ | ⟨hs, he⟩
    · rw [he]
      exact ⟨fun hctl => by simp at hctl, h.gone, h.spawned⟩
    · rw [he]
      exact ⟨fun _ => rfl, fun _ => ha hs, h.spawned⟩
  | thread i events => exact thread_alone h hstep

/-- A process before its first init. -/
structure Fresh (u : Process M) : Prop where
  state : u.io.state = .created
  sane : Sane u.io u.kernel
  init : u.init = false
  ctl : u.ctl = .idle
  threads : ∀ i, u.threads i = none

theorem Fresh.safe {u : Process M} (h : Fresh u) : Safe u where
  sane := h.sane
  single i _ _ _ ht := by rw [h.threads i] at ht; cases ht
  looping i _ ht := by rw [h.threads i] at ht; cases ht
  spawned i ht := by rw [h.threads i] at ht; cases ht
  oneSpawned i _ ht := by rw [h.threads i] at ht; cases ht

theorem Fresh.alone {u : Process M} (h : Fresh u) : Alone u where
  controlled _ := h.init
  gone _ i _ ht := by rw [h.threads i] at ht; cases ht
  spawned i ht := by rw [h.threads i] at ht; cases ht

/-- In every run of init, deinit and their threads: the threads are single and have their
resources exactly when the steps are ordered, which they are when every deinit that takes
effect finds the threads gone. -/
theorem threads_sound_iff {u v : Process M} {ms : List (Move (Process M) Act)} (hu : Fresh u)
    (h : Path step u ms v) :
    ((∀ m ∈ ms, Sound m.post) ↔ ∀ m ∈ ms, Ordered m.pre m.act) ∧
      ((∀ m ∈ ms, Joined m.pre m.act) → ∀ m ∈ ms, Sound m.post) := by
  have hiff : (∀ m ∈ ms, Sound m.post) ↔ ∀ m ∈ ms, Ordered m.pre m.act := by
    constructor
    · intro hsound m hm
      obtain ⟨_, _, -, -, hstep⟩ := h.split hm
      exact (hsound m hm).ordered hstep
    · intro hordered m hm
      have hmove := h.guarded_move (I := Safe) hu.safe
        (fun _ _ _ hw ha hs => step_safe hw ha hs) hordered hm
      exact hmove.2.1.sound
  refine ⟨hiff, fun hjoined => hiff.mpr fun m hm => ?_⟩
  have hmove := h.guarded_move (I := Alone) hu.alone
    (fun _ _ _ hw ha hs => step_alone hw ha hs) hjoined hm
  exact hmove.1.ordered (hjoined m hm)

/-- A process with its standard descriptors. -/
def newProcess : Process Unit where
  kernel := { isOpen := fun fd => decide (0 ≤ fd ∧ fd ≤ 2) }

theorem newProcess_fresh : Fresh newProcess where
  state := rfl
  sane := ⟨fun _ h => (of_decide_eq_true h).1, fun h => nomatch h⟩
  init := rfl
  ctl := rfl
  threads _ := rfl

/-- init, and its thread announces itself; stop writes to the pipe. -/
def lifeActs : List Act :=
  [.initInit ⟨some (3, 4), 5, true⟩, .initStart false, .thread 0 [], .deinitStop false]

theorem joined_run : ∃ ms v, Path step newProcess ms v ∧ v.init = false ∧
    v.threads 0 = some .done ∧ ∀ m ∈ ms, Joined m.pre m.act := by
  have hrun : ∃ u v, run step newProcess (lifeActs ++
      [.thread 0 [3], .thread 0 [], .thread 0 [], .thread 0 []]) = some u ∧
      step u .deinitDeinit = some v ∧ u.threads 0 = some .done ∧ (∀ i, u.threads (i + 1) = none) ∧
      v.init = false ∧ v.threads 0 = some .done :=
    ⟨_, _, rfl, rfl, rfl, fun _ => rfl, rfl, rfl⟩
  obtain ⟨u, v, hu, hv, hdone, hnone, hinit, hgone⟩ := hrun
  obtain ⟨ms, hp, hacts⟩ := path_of_run hu
  refine ⟨_, v, hp.snoc hv, hinit, hgone, fun m hm => ?_⟩
  rcases List.mem_append.mp hm with hearlier | hlast
  · have hact : m.act ∈ lifeActs ++ [.thread 0 [3], .thread 0 [], .thread 0 [], .thread 0 []] :=
      hacts ▸ List.mem_map_of_mem hearlier
    simp only [lifeActs, List.cons_append, List.nil_append, List.mem_cons, List.not_mem_nil,
      or_false] at hact
    rcases hact with hact | hact | hact | hact | hact | hact | hact | hact <;> rw [hact] <;> trivial
  · obtain rfl : m = ⟨u, .deinitDeinit, v⟩ := by simpa using hlast
    intro _ i p ht
    cases i with
    | zero => exact (Option.some.inj (hdone.symm.trans ht)).symm
    | succ i => exact nomatch (hnone i).symm.trans ht

theorem threads_sound_iff_joined :
    ∃ (ms : List (Move (Process Unit) Act)) (v : Process Unit), Path step newProcess ms v ∧
      v.threads 0 = some .done ∧ (∀ m ∈ ms, Joined m.pre m.act) ∧
      ((∀ m ∈ ms, Sound m.post) ↔ ∀ m ∈ ms, Ordered m.pre m.act) ∧ ∀ m ∈ ms, Sound m.post := by
  obtain ⟨ms, v, hp, -, hgone, hjoined⟩ := joined_run
  obtain ⟨hiff, hsound⟩ := threads_sound_iff newProcess_fresh hp
  exact ⟨ms, v, hp, hgone, hjoined, hiff, hsound hjoined⟩

/-- deinit takes the module down while the thread is still before epoll_wait. -/
theorem module_gone_in_loop :
    ¬ ∀ (u v : Process Unit) (ms : List (Move (Process Unit) Act)), Fresh u →
      Path step u ms v → Sound v := by
  intro h
  have hrun : ∃ v, run step newProcess (lifeActs ++ [.deinitDeinit]) = some v ∧
      v.threads 0 = some (.waiting .wakeup) ∧ v.io.epollEvents = false := ⟨_, rfl, rfl, rfl⟩
  obtain ⟨v, hv, hwaiting, hevents⟩ := hrun
  obtain ⟨ms, hp, -⟩ := path_of_run hv
  have hsound := h newProcess v ms newProcess_fresh hp
  have hevents' := (hsound.resources 0 _ hwaiting rfl).2
  rw [hevents] at hevents'
  cases hevents'

end DericRpc.ThreadLife
