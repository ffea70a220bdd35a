import DericRpc.Common
import Mathlib.Logic.Function.Basic
import Mathlib.Tactic.SplitIfs

/-! IoModule: its fields, the part of the kernel it uses, and each of its operations as
one atomic step. `M` is the type of the registered io members. -/
namespace DericRpc.Io
open Common

inductive WakeFlag where
  | stop | wakeup
  deriving DecidableEq

/-- Open descriptors, those that the module's epoll instance watches, and what has been
written to the wake-up pipe and not read. -/
structure Kernel where
  isOpen : Int → Bool := fun _ => false
  interest : Int → Bool := fun _ => false
  pipe : List WakeFlag := []

/-- Closing a descriptor also ends its watch. -/
def Kernel.close (k : Kernel) (fd : Int) : Kernel :=
  { k with
    isOpen := Function.update k.isOpen fd false
    interest := Function.update k.interest fd false }

def Kernel.openFd (k : Kernel) (fd : Int) : Kernel :=
  { k with isOpen := Function.update k.isOpen fd true }

inductive EpollOp where
  | add | del

/-- epoll_ctl; the kernel may refuse any call. -/
def Kernel.epollCtl (k : Kernel) (epollFd : Int) (op : EpollOp) (fd : Int) (refused : Bool) :
    Kernel × Int :=
  if refused = true ∨ k.isOpen epollFd = false ∨ k.isOpen fd = false then (k, -1)
  else match op with
    | .add =>
      if k.interest fd = true then (k, -1)
      else ({ k with interest := Function.update k.interest fd true }, 0)
    | .del =>
      if k.interest fd = false then (k, -1)
      else ({ k with interest := Function.update k.interest fd false }, 0)

/-- `ioMembersMutex` and `epollEvents` tell whether the mutex is locked and the array is
allocated. -/
structure IoModule (M : Type) where
  state : ComponentState := .created
  ioMembersMutex : Bool := false
  wakeUpPipeFd : Int × Int := (-1, -1)
  epollFd : Int := -1
  maxEpollSize : Int := 0
  epollEvents : Bool := false
  ioMembers : Int → Option M := fun _ => none

variable {M : Type}

def modifyEpollEvent (io : IoModule M) (k : Kernel) (op : EpollOp) (fd : Int) (refused : Bool) :
    Kernel × Int :=
  if io.epollFd < 0 ∨ io.state.rank < ComponentState.initialized.rank then (k, -1)
  else if fd < 0 then (k, -1)
  else k.epollCtl io.epollFd op fd refused

def wakeupModule (io : IoModule M) (k : Kernel) : Kernel :=
  if io.state.rank < ComponentState.started.rank then k
  else if io.wakeUpPipeFd.2 < 0 then k
  else { k with pipe := k.pipe ++ [.wakeup] }

/-- The member comes with what its getFd returns. No result where the mutex is never
given back to the caller. -/
def addIoMember (io : IoModule M) (k : Kernel) (ioMember : Option (M × Int)) (refused : Bool) :
    Option (IoModule M × Kernel × Int) :=
  match ioMember with
  | none => some (io, k, -1)
  | some (m, fd) =>
    if fd < 0 then some (io, k, -1)
    else if io.ioMembersMutex = true then none
    else match io.ioMembers fd with
      -- the break skips the unlock, and the result is still 0
      | some _ => some ({ io with ioMembersMutex := true }, k, 0)
      | none =>
        let io := { io with ioMembers := Function.update io.ioMembers fd (some m) }
        let out := modifyEpollEvent io k .add fd refused
        some (io, wakeupModule io out.1, out.2)

def removeIoMember (io : IoModule M) (k : Kernel) (ioMember : Option Int) (refused : Bool) :
    Option (IoModule M × Kernel × Int) :=
  match ioMember with
  | none => some (io, k, -1)
  | some fd =>
    if io.ioMembersMutex = true then none
    else match io.ioMembers fd with
      | none => some ({ io with ioMembersMutex := true }, k, -1)
      | some _ =>
        let io := { io with ioMembers := Function.update io.ioMembers fd none }
        let out := modifyEpollEvent io k .del fd refused
        some (io, out.1, out.2)

theorem epollCtl_add (k : Kernel) (epollFd fd : Int) (refused : Bool) :
    k.epollCtl epollFd .add fd refused = (k, -1) ∨ (k.isOpen epollFd = true ∧
      k.epollCtl epollFd .add fd refused =
        ({ k with interest := Function.update k.interest fd true }, 0)) := by
  by_cases hopen : refused = true ∨ k.isOpen epollFd = false ∨ k.isOpen fd = false
  · exact .inl (if_pos hopen)
  · cases hi : k.interest fd with
    | true => exact .inl (by simp [Kernel.epollCtl, hi])
    | false =>
      obtain ⟨-, hepoll, -⟩ := by simpa only [not_or] using hopen
      exact .inr ⟨by simpa using hepoll, by simp [Kernel.epollCtl, if_neg hopen, hi]⟩

theorem modifyEpollEvent_add (io : IoModule M) (k : Kernel) (fd : Int) (refused : Bool) :
    modifyEpollEvent io k .add fd refused = (k, -1) ∨ (k.isOpen io.epollFd = true ∧
      modifyEpollEvent io k .add fd refused =
        ({ k with interest := Function.update k.interest fd true }, 0)) := by
  unfold modifyEpollEvent
  split_ifs
  · exact .inl rfl
  · exact .inl rfl
  · exact epollCtl_add k io.epollFd fd refused

@[simp] theorem wakeupModule_interest (io : IoModule M) (k : Kernel) :
    (wakeupModule io k).interest = k.interest := by
  unfold wakeupModule
  split_ifs <;> rfl

theorem addIoMember_mutex {io : IoModule M} {k : Kernel} {m : M} {fd : Int} {refused : Bool}
    {out : IoModule M × Kernel × Int} (hfd : 0 ≤ fd)
    (h : addIoMember io k (some (m, fd)) refused = some out) : io.ioMembersMutex = false := by
  cases hmutex : io.ioMembersMutex with
  | false => rfl
  | true => simp [addIoMember, not_lt.mpr hfd, hmutex] at h

/-- A member whose fd is in the table is not added, and the mutex stays locked; any other
is in the table afterwards, whether epoll took it or not. -/
theorem addIoMember_cases {io io' : IoModule M} {k k' : Kernel} {m : M} {fd res : Int}
    {refused : Bool} (hfd : 0 ≤ fd)
    (h : addIoMember io k (some (m, fd)) refused = some (io', k', res)) :
    (∃ old, io.ioMembers fd = some old ∧ io' = { io with ioMembersMutex := true } ∧ k' = k ∧
      res = 0) ∨
    (io.ioMembers fd = none ∧
      io' = { io with ioMembers := Function.update io.ioMembers fd (some m) } ∧
      ((res = -1 ∧ k'.interest = k.interest) ∨
        (res = 0 ∧ k'.interest = Function.update k.interest fd true))) := by
  cases hmutex : io.ioMembersMutex with
  | true => simp [addIoMember, not_lt.mpr hfd, hmutex] at h
  | false =>
    cases hf : io.ioMembers fd with
    | some old =>
      obtain ⟨rfl, rfl, rfl⟩ : { io with ioMembersMutex := true } = io' ∧ k = k' ∧ 0 = res := by
        simpa [addIoMember, not_lt.mpr hfd, hmutex, hf] using h
      exact .inl ⟨old, rfl, rfl, rfl, rfl⟩
    | none =>
      obtain ⟨rfl, rfl, rfl⟩ : _ = io' ∧ _ = k' ∧ _ = res := by
        simpa [addIoMember, not_lt.mpr hfd, hmutex, hf] using h
      refine .inr ⟨rfl, rfl, ?_⟩
      rcases modifyEpollEvent_add
        { io with ioMembersMutex := false, ioMembers := Function.update io.ioMembers fd (some m) }
        k fd refused with hadd | ⟨-, hadd⟩
      · exact .inl (by simp [hadd])
      · exact .inr (by simp [hadd])

@[simp] theorem wakeupModule_isOpen (io : IoModule M) (k : Kernel) :
    (wakeupModule io k).isOpen = k.isOpen := by
  unfold wakeupModule
  split_ifs <;> rfl

@[simp] theorem epollCtl_isOpen (k : Kernel) (epollFd : Int) (op : EpollOp) (fd : Int)
    (refused : Bool) : (k.epollCtl epollFd op fd refused).1.isOpen = k.isOpen := by
  unfold Kernel.epollCtl
  cases op <;> split_ifs <;> rfl

@[simp] theorem modifyEpollEvent_isOpen (io : IoModule M) (k : Kernel) (op : EpollOp) (fd : Int)
    (refused : Bool) : (modifyEpollEvent io k op fd refused).1.isOpen = k.isOpen := by
  unfold modifyEpollEvent
  split_ifs
  · rfl
  · rfl
  · exact epollCtl_isOpen k io.epollFd op fd refused

theorem addIoMember_isOpen {io io' : IoModule M} {k k' : Kernel} {ioMember : Option (M × Int)}
    {refused : Bool} {res : Int} (h : addIoMember io k ioMember refused = some (io', k', res)) :
    k'.isOpen = k.isOpen := by
  unfold addIoMember at h
  cases ioMember with
  | none =>
    obtain ⟨-, rfl, -⟩ : io = io' ∧ k = k' ∧ -1 = res := by simpa using h
    rfl
  | some member =>
    obtain ⟨m, fd⟩ := member
    dsimp only at h
    split_ifs at h
    · obtain ⟨-, rfl, -⟩ : io = io' ∧ k = k' ∧ -1 = res := by simpa using h
      rfl
    · cases hf : io.ioMembers fd with
      | some old =>
        obtain ⟨-, rfl, -⟩ : _ = io' ∧ k = k' ∧ 0 = res := by simpa [hf] using h
        rfl
      | none =>
        obtain ⟨-, rfl, -⟩ : _ = io' ∧ _ = k' ∧ _ = res := by simpa [hf] using h
        rw [wakeupModule_isOpen, modifyEpollEvent_isOpen]

/-- A removal needs the mutex. An fd that is not in the table leaves it locked; any other is
gone from the table, whether epoll knew it or not. -/
theorem removeIoMember_cases {io io' : IoModule M} {k k' : Kernel} {fd res : Int} {refused : Bool}
    (h : removeIoMember io k (some fd) refused = some (io', k', res)) :
    io.ioMembersMutex = false ∧ k'.isOpen = k.isOpen ∧
      ((io.ioMembers fd = none ∧ io' = { io with ioMembersMutex := true }) ∨
        ((∃ m, io.ioMembers fd = some m) ∧
          io' = { io with ioMembers := Function.update io.ioMembers fd none })) := by
  cases hmutex : io.ioMembersMutex with
  | true => simp [removeIoMember, hmutex] at h
  | false =>
    cases hf : io.ioMembers fd with
    | none =>
      obtain ⟨rfl, rfl, -⟩ : { io with ioMembersMutex := true } = io' ∧ k = k' ∧ -1 = res := by
        simpa [removeIoMember, hmutex, hf] using h
      exact ⟨rfl, rfl, .inl ⟨rfl, rfl⟩⟩
    | some m =>
      simp only [removeIoMember, hmutex, hf, Bool.false_eq_true, if_false] at h
      obtain ⟨rfl, rfl, -⟩ := Prod.mk.inj (Option.some.inj h) |>.imp_right Prod.mk.inj
      exact ⟨rfl, modifyEpollEvent_isOpen _ _ _ _ _, .inr ⟨⟨m, rfl⟩, rfl⟩⟩

theorem removeIoMember_table {io io' : IoModule M} {k k' : Kernel} {fd res : Int} {refused : Bool}
    (h : removeIoMember io k (some fd) refused = some (io', k', res)) {fd' : Int} {m : M}
    (hm : io'.ioMembers fd' = some m) : fd' ≠ fd ∧ io.ioMembers fd' = some m := by
  obtain ⟨-, -, ⟨hnone, rfl⟩ | ⟨-, rfl⟩⟩ := removeIoMember_cases h
  · refine ⟨?_, hm⟩
    rintro rfl
    cases hnone.symm.trans hm
  · by_cases hne : fd' = fd
    · simp [hne] at hm
    · exact ⟨hne, by simpa [hne] using hm⟩

/-- The kernel's answers to init: the pipe's two ends, what epoll_create1 returns, and
whether the allocation succeeds. -/
structure InitAnswers where
  pipe : Option (Int × Int)
  epoll : Int
  events : Bool

def init (io : IoModule M) (k : Kernel) (epollSize : Int) (a : InitAnswers) :
    IoModule M × Kernel × Int :=
  if ComponentState.initialized.rank ≤ io.state.rank then (io, k, 0)
  else match a.pipe with
    | none => (io, k, -1)
    | some (r, w) =>
      let io := { io with wakeUpPipeFd := (r, w), epollFd := a.epoll }
      let k := { (k.openFd r).openFd w with pipe := [] }
      if a.epoll < 0 then (io, (k.close r).close w, -1)
      else
        let io := { io with maxEpollSize := epollSize, epollEvents := a.events }
        let k := { k.openFd a.epoll with interest := fun _ => false }
        if a.events = false then (io, ((k.close a.epoll).close r).close w, -1)
        else ({ io with state := .initialized }, k, 0)

def deinit (io : IoModule M) (k : Kernel) : IoModule M × Kernel × Int :=
  if io.state ≠ .initialized then (io, k, -1)
  else
    let k := { k.close io.epollFd with interest := fun _ => false }
    let k := (k.close io.wakeUpPipeFd.1).close io.wakeUpPipeFd.2
    ({ io with epollFd := -1, epollEvents := false, wakeUpPipeFd := (0, 0), state := .created },
      k, 0)

/-- The last component tells whether a thread was started. -/
def start (io : IoModule M) (k : Kernel) (refused : Bool) : Kernel × Int × Bool :=
  if io.state ≠ .initialized then (k, -1, false)
  else
    let out := modifyEpollEvent io k .add io.wakeUpPipeFd.1 refused
    if out.2 < 0 then (out.1, out.2, false) else (out.1, out.2, true)

/-- `fails` is a failing write to the pipe; a successful one writes one byte. -/
def stop (io : IoModule M) (k : Kernel) (fails : Bool) : IoModule M × Kernel × Int :=
  if io.state.rank < ComponentState.started.rank then (io, k, -1)
  else if io.wakeUpPipeFd.2 < 0 then (io, k, -1)
  else if fails = true then (io, k, -1)
  else ({ io with state := .initialized }, { k with pipe := k.pipe ++ [.stop] }, 1)

theorem init_of_initialized {io : IoModule M} (k : Kernel) (size : Int) (a : InitAnswers)
    (h : io.state ≠ .created) : init io k size a = (io, k, 0) := by
  cases hs : io.state with
  | created => exact absurd hs h
  | initialized => simp [init, hs, ComponentState.rank]
  | started => simp [init, hs, ComponentState.rank]

/-- All that init can do, by how far it gets. -/
inductive InitStep (io : IoModule M) (k : Kernel) (epollSize : Int) (a : InitAnswers) :
    IoModule M × Kernel × Int → Prop
  | skipped : io.state ≠ .created → InitStep io k epollSize a (io, k, 0)
  | noPipe : io.state = .created → a.pipe = none → InitStep io k epollSize a (io, k, -1)
  | noEpoll (r w : Int) : io.state = .created → a.pipe = some (r, w) → a.epoll < 0 →
      InitStep io k epollSize a
        ({ io with wakeUpPipeFd := (r, w), epollFd := a.epoll },
          (Kernel.close { (k.openFd r).openFd w with pipe := [] } r).close w, -1)
  | noEvents (r w : Int) : io.state = .created → a.pipe = some (r, w) → 0 ≤ a.epoll →
      a.events = false →
      InitStep io k epollSize a
        ({ io with
            wakeUpPipeFd := (r, w), epollFd := a.epoll, maxEpollSize := epollSize
            epollEvents := false },
          ((Kernel.close
            { Kernel.openFd { (k.openFd r).openFd w with pipe := [] } a.epoll with
              interest := fun _ => false } a.epoll).close r).close w, -1)
  | opened (r w : Int) : io.state = .created → a.pipe = some (r, w) → 0 ≤ a.epoll →
      a.events = true →
      InitStep io k epollSize a
        ({ io with
            wakeUpPipeFd := (r, w), epollFd := a.epoll, maxEpollSize := epollSize
            epollEvents := true, state := .initialized },
          { Kernel.openFd { (k.openFd r).openFd w with pipe := [] } a.epoll with
            interest := fun _ => false }, 0)

theorem init_step (io : IoModule M) (k : Kernel) (epollSize : Int) (a : InitAnswers) :
    InitStep io k epollSize a (init io k epollSize a) := by
  by_cases hs : io.state = .created
  · have hrank : ¬ComponentState.initialized.rank ≤ io.state.rank := by
      rw [hs]
      decide
    rw [init, if_neg hrank]
    cases hp : a.pipe with
    | none => exact .noPipe hs hp
    | some p =>
      obtain ⟨r, w⟩ := p
      by_cases hepoll : a.epoll < 0
      · simp only [if_pos hepoll]
        exact .noEpoll r w hs hp hepoll
      · simp only [if_neg hepoll]
        cases hevents : a.events with
        | false => exact .noEvents r w hs hp (not_lt.mp hepoll) hevents
        | true => exact .opened r w hs hp (not_lt.mp hepoll) hevents
  · rw [init_of_initialized k epollSize a hs]
    exact .skipped hs

theorem deinit_of_not_initialized {io : IoModule M} (k : Kernel) (h : io.state ≠ .initialized) :
    deinit io k = (io, k, -1) := if_pos h

/-- A start that succeeds finds the module initialized and its epoll instance open; no start
opens or closes a descriptor. -/
theorem start_cases {io : IoModule M} {k k' : Kernel} {refused started : Bool} {res : Int}
    (h : start io k refused = (k', res, started)) :
    k'.isOpen = k.isOpen ∧ ((res < 0 ∧ started = false) ∨
      (0 ≤ res ∧ started = true ∧ io.state = .initialized ∧ k.isOpen io.epollFd = true)) := by
  by_cases hs : io.state = .initialized
  · rcases modifyEpollEvent_add io k io.wakeUpPipeFd.1 refused with hadd | ⟨hepoll, hadd⟩
    · obtain ⟨rfl, rfl, rfl⟩ : k = k' ∧ -1 = res ∧ false = started := by
        simpa [start, hs, hadd] using h
      exact ⟨rfl, .inl ⟨by decide, rfl⟩⟩
    · obtain ⟨rfl, rfl, rfl⟩ : _ = k' ∧ 0 = res ∧ true = started := by
        simpa [start, hs, hadd] using h
      exact ⟨rfl, .inr ⟨le_rfl, rfl, hs, hepoll⟩⟩
  · obtain ⟨rfl, rfl, rfl⟩ : k = k' ∧ -1 = res ∧ false = started := by
      simpa [start, hs] using h
    exact ⟨rfl, .inl ⟨by decide, rfl⟩⟩

theorem stop_cases {io io' : IoModule M} {k k' : Kernel} {fails : Bool} {res : Int}
    (h : stop io k fails = (io', k', res)) :
    (res = -1 ∧ io' = io ∧ k' = k) ∨ (0 ≤ res ∧ io.state = .started ∧
      io' = { io with state := .initialized } ∧ k' = { k with pipe := k.pipe ++ [.stop] }) := by
  have hrefused (h : (io, k, (-1 : Int)) = (io', k', res)) : res = -1 ∧ io' = io ∧ k' = k := by
    obtain ⟨rfl, rfl, rfl⟩ : io = io' ∧ k = k' ∧ -1 = res := by simpa using h
    exact ⟨rfl, rfl, rfl⟩
  unfold stop at h
  split_ifs at h with hrank
  · exact .inl (hrefused h)
  · exact .inl (hrefused h)
  · exact .inl (hrefused h)
  · obtain ⟨rfl, rfl, rfl⟩ : _ = io' ∧ _ = k' ∧ 1 = res := by simpa using h
    have hs : io.state = .started := by
      cases hs : io.state with
      | started => rfl
      | _ => simp [hs, ComponentState.rank] at hrank
    exact .inr ⟨by decide, hs, rfl, rfl⟩

/-- The kernel's descriptors are not negative, and the module's epoll instance comes with
its array. -/
structure Sane (io : IoModule M) (k : Kernel) : Prop where
  open_nonneg : ∀ fd, k.isOpen fd = true → 0 ≤ fd
  epollEvents : k.isOpen io.epollFd = true → io.epollEvents = true

theorem open_of_close {k : Kernel} {x fd : Int} (h : (k.close x).isOpen fd = true) :
    fd ≠ x ∧ k.isOpen fd = true := by
  by_cases hx : fd = x
  · simp [Kernel.close, hx] at h
  · exact ⟨hx, by simpa [Kernel.close, hx] using h⟩

theorem open_of_openFd {k : Kernel} {x fd : Int} (h : (k.openFd x).isOpen fd = true) :
    fd = x ∨ k.isOpen fd = true := by
  by_cases hx : fd = x
  · exact .inl hx
  · exact .inr (by simpa [Kernel.openFd, hx] using h)

theorem Sane.init {io io' : IoModule M} {k k' : Kernel} {size res : Int} {a : InitAnswers}
    (hk : Sane io k) (ha : ∀ r w, a.pipe = some (r, w) → 0 ≤ r ∧ 0 ≤ w)
    (h : init io k size a = (io', k', res)) : Sane io' k' := by
  have hpipe {r w fd : Int} (hp : a.pipe = some (r, w))
      (hfd : ((k.openFd r).openFd w).isOpen fd = true) : 0 ≤ fd := by
    rcases open_of_openFd hfd with rfl | hfd
    · exact (ha r fd hp).2
    rcases open_of_openFd hfd with rfl | hfd
    · exact (ha fd w hp).1
    · exact hk.open_nonneg fd hfd
  have hopen {r w fd : Int} (hp : a.pipe = some (r, w)) (hepoll : 0 ≤ a.epoll)
      (hfd : (((k.openFd r).openFd w).openFd a.epoll).isOpen fd = true) : 0 ≤ fd := by
    rcases open_of_openFd hfd with rfl | hfd
    · exact hepoll
    · exact hpipe hp hfd
  have hstep := init_step io k size a
  rw [h] at hstep
  cases hstep with
  | skipped _ => exact hk
  | noPipe _ _ => exact hk
  | noEpoll r w _ hp hepoll =>
    have hleft {fd : Int} (hfd : ((((k.openFd r).openFd w).close r).close w).isOpen fd = true) :
        0 ≤ fd := hpipe hp (open_of_close (open_of_close hfd).2).2
    exact ⟨fun fd hfd => hleft hfd, fun hfd => absurd (hleft hfd) (not_le.mpr hepoll)⟩
  | noEvents r w _ hp hepoll _ =>
    refine ⟨fun fd hfd => hopen hp hepoll ?_, fun hfd => ?_⟩
    · exact (open_of_close (open_of_close (open_of_close hfd).2).2).2
    · exact absurd rfl (open_of_close (open_of_close (open_of_close hfd).2).2).1
  | opened r w _ hp hepoll _ => exact ⟨fun fd hfd => hopen hp hepoll hfd, fun _ => rfl⟩

theorem Sane.deinit {io : IoModule M} {k : Kernel} (hk : Sane io k) :
    Sane (deinit io k).1 (deinit io k).2.1 := by
  by_cases hs : io.state = .initialized
  · have hopen {fd : Int} (hfd : (Io.deinit io k).2.1.isOpen fd = true) : 0 ≤ fd := by
      simp only [Io.deinit, hs, ne_eq, not_true_eq_false, if_false] at hfd
      exact hk.open_nonneg fd (open_of_close (open_of_close (open_of_close hfd).2).2).2
    refine ⟨fun fd hfd => hopen hfd, fun hfd => ?_⟩
    have hepoll : (Io.deinit io k).1.epollFd = -1 := by simp [Io.deinit, hs]
    rw [hepoll] at hfd
    exact absurd (hopen hfd) (by decide)
  · rw [deinit_of_not_initialized k hs]
    exact hk

end DericRpc.Io
