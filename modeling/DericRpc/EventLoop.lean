import DericRpc.Connection
import DericRpc.IoTable

/-! IoModule::waitThreadFunc: passes over batches of epoll events, with callbacks that change
the table in which the next event's member is looked up. -/
namespace DericRpc.EventLoop
open Common Connection Io IoTable
variable {M : Type}

/-- The bits of an epoll event that the loop tests. -/
structure Event where
  fd : Int
  epollin : Bool := false
  epollerr : Bool := false
  epollhup : Bool := false
  deriving DecidableEq

def Event.failed (e : Event) : Bool := e.epollerr || e.epollhup || !e.epollin

inductive Callback where
  | onReadAvailable | onIoError
  deriving DecidableEq

/-- What a callback, or another thread while the loop waits, does to table and kernel. -/
inductive Op (M : Type) where
  | add (ioMember : M) (fd : Int) (refused : Bool)
  | remove (fd : Int) (refused : Bool)
  | openFd (fd : Int)
  | closeFd (fd : Int)
  | stop (fails : Bool)

def Op.apply (io : IoModule M) (k : Kernel) : Op M → Option (IoModule M × Kernel)
  | .add ioMember fd refused =>
    (addIoMember io k (some (ioMember, fd)) refused).map fun (io, k, _) => (io, k)
  | .remove fd refused => (removeIoMember io k (some fd) refused).map fun (io, k, _) => (io, k)
  | .openFd fd => some (io, k.openFd fd)
  | .closeFd fd => some (io, k.close fd)
  | .stop fails => some ((Io.stop io k fails).1, (Io.stop io k fails).2.1)

def runOps (io : IoModule M) (k : Kernel) : List (Op M) → Option (IoModule M × Kernel)
  | [] => some (io, k)
  | op :: ops => (op.apply io k).bind fun (io, k) => runOps io k ops

/-- The table after an operation, as its caller means it. -/
def Op.table (table : Int → Option M) : Op M → Int → Option M
  | .add ioMember fd _ =>
    if fd < 0 then table else Function.update table fd (some ioMember)
  | .remove fd _ => Function.update table fd none
  | _ => table

def replay (table : Int → Option M) (ops : List (Op M)) : Int → Option M :=
  ops.foldl Op.table table

/-- Members are added under fds that the table does not have and removed under fds that it
has; the epoll instance stays open. -/
def Op.Allowed (epollFd : Int) (table : Int → Option M) : Op M → Prop
  | .add _ fd _ => 0 ≤ fd → table fd = none
  | .remove fd _ => table fd ≠ none
  | .closeFd fd => fd ≠ epollFd
  | _ => True

def Proper (epollFd : Int) (table : Int → Option M) : List (Op M) → Prop
  | [] => True
  | op :: ops => op.Allowed epollFd table ∧ Proper epollFd (op.table table) ops

/-- What a callback does; only onIoError returns an action. -/
structure Reaction (io : IoModule M) where
  ops : List (Op M)
  action : IoMemberErrorAction := .null
  proper : Proper io.epollFd io.ioMembers ops

/-- A callback may go by all callbacks before it, and by the table as it finds it. -/
abbrev Behaviour (M : Type) :=
  List (M × Callback) → M → Callback → (io : IoModule M) → Reaction io

/-- The variables of waitThreadFunc, and the callbacks it has made. -/
structure Loop (M : Type) where
  io : IoModule M
  kernel : Kernel
  wakeupFlag : WakeFlag := .wakeup
  curMember : Option M := none
  closeFds : List Int := []
  calls : List (M × Callback) := []

/-- What became of one event: the byte read from the wake-up pipe, or the callback, what that
did and what it returned. -/
structure Turn (M : Type) where
  event : Event
  byte : Option WakeFlag := none
  call : Option (M × Callback) := none
  ops : List (Op M) := []
  action : IoMemberErrorAction := .null

/-- A read that gets no byte leaves the flag as it is. -/
def readWakeup (u : Loop M) : Loop M × Option WakeFlag :=
  match u.kernel.pipe with
  | [] => (u, none)
  | byte :: pipe => ({ u with kernel := { u.kernel with pipe := pipe }, wakeupFlag := byte }, some byte)

variable (react : Behaviour M)

def callMember (u : Loop M) (e : Event) : Option (Loop M × Turn M) :=
  match u.curMember with
  | none => some (u, { event := e })
  | some m =>
    if e.failed = true then
      let r := react u.calls m .onIoError u.io
      (runOps u.io u.kernel r.ops).map fun (io, k) =>
        -- cur_member is not reset on this path
        ({ u with
            io := io
            kernel := k
            closeFds := if r.action = .delete then u.closeFds ++ [e.fd] else u.closeFds
            calls := u.calls ++ [(m, .onIoError)] },
          { event := e, call := some (m, .onIoError), ops := r.ops, action := r.action })
    else
      let r := react u.calls m .onReadAvailable u.io
      (runOps u.io u.kernel r.ops).map fun (io, k) =>
        ({ u with
            io := io
            kernel := k
            curMember := none
            calls := u.calls ++ [(m, .onReadAvailable)] },
          { event := e, call := some (m, .onReadAvailable), ops := r.ops })

/-- The body of the loop over the batch. -/
def handleEvent (u : Loop M) (e : Event) : Option (Loop M × Turn M) :=
  if e.fd = u.io.wakeUpPipeFd.1 then
    some ((readWakeup u).1, { event := e, byte := (readWakeup u).2 })
  else if u.io.ioMembersMutex = true then none
  else match u.io.ioMembers e.fd with
    | none => some (u, { event := e })
    | some m => callMember react { u with curMember := some m } e

def dispatch : Loop M → List Event → Option (Loop M × List (Turn M))
  | u, [] => some (u, [])
  | u, e :: batch => (handleEvent react u e).bind fun (v, t) =>
      (dispatch v batch).map fun (w, turns) => (w, t :: turns)

/-- The loop over close_fds. EPOLL_CTL_DEL of a watched fd is not refused. -/
def closeDeleted (io : IoModule M) (k : Kernel) : List Int → Option (IoModule M × Kernel)
  | [] => some (io, k)
  | fd :: fds =>
    let k := (modifyEpollEvent io k .del fd false).1
    if io.ioMembersMutex = true then none
    else closeDeleted { io with ioMembers := Function.update io.ioMembers fd none } k fds

/-- One pass: the loop when epoll_wait has returned, when the batch is handled, and when the
deletions are made. -/
structure Pass (M : Type) where
  before : Loop M
  batch : List Event
  turns : List (Turn M)
  handled : Loop M
  after : Loop M

def pass (u : Loop M) (batch : List Event) : Option (Pass M) :=
  (dispatch react u batch).bind fun (v, turns) =>
    (closeDeleted v.io v.kernel v.closeFds).map fun (io, k) =>
      ⟨u, batch, turns, v, { v with io := io, kernel := k, closeFds := [] }⟩

/-- What other threads do while epoll_wait waits, and the batch that it returns. -/
structure Round (M : Type) where
  meanwhile : (io : IoModule M) → { ops : List (Op M) // Proper io.epollFd io.ioMembers ops }
  batch : List Event

/-- The last component tells whether the loop was left. -/
def waitLoop : Loop M → List (Round M) → Option (Loop M × List (Pass M) × Bool)
  | u, [] => some (u, [], false)
  | u, r :: rounds => (runOps u.io u.kernel (r.meanwhile u.io).1).bind fun (io, k) =>
      (pass react { u with io := io, kernel := k } r.batch).bind fun p =>
        if p.after.wakeupFlag = .stop then some (p.after, [p], true)
        else (waitLoop p.after rounds).map fun (v, passes, left) => (v, p :: passes, left)

def waitThreadFunc (io : IoModule M) (k : Kernel) (rounds : List (Round M)) :
    Option (IoModule M × Kernel × List (Pass M) × Bool) :=
  (waitLoop react { io := { io with state := .started }, kernel := k } rounds).map
    fun (u, passes, left) =>
      (if left = true then { u.io with state := .initialized } else u.io, u.kernel, passes, left)

/-- The epoll instance is open and watches open descriptors only, and nobody has the mutex. -/
structure Ready (io : IoModule M) (k : Kernel) : Prop where
  epollFd : 0 ≤ io.epollFd
  epoll_open : k.isOpen io.epollFd = true
  unlocked : io.ioMembersMutex = false
  watched : ∀ fd, k.interest fd = true → 0 ≤ fd ∧ k.isOpen fd = true

structure Running (io : IoModule M) (k : Kernel) : Prop extends Ready io k where
  initialized : io.state ≠ .created

/-- The module after some operations: as before, but with this table. -/
structure Follows (io io' : IoModule M) (k' : Kernel) (table : Int → Option M) : Prop where
  running : Running io' k'
  table : io'.ioMembers = table
  epollFd : io'.epollFd = io.epollFd
  wakeUpPipeFd : io'.wakeUpPipeFd = io.wakeUpPipeFd

variable {io : IoModule M} {k : Kernel}

theorem epollCtl_interest {epollFd fd x : Int} {op : EpollOp} {refused : Bool}
    (h : (k.epollCtl epollFd op fd refused).1.interest x = true) :
    k.interest x = true ∨ (x = fd ∧ k.isOpen fd = true) := by
  by_cases hx : x = fd
  · subst hx
    by_cases hopen : refused = true ∨ k.isOpen epollFd = false ∨ k.isOpen x = false
    · have hsame : k.epollCtl epollFd op x refused = (k, -1) := if_pos hopen
      rw [hsame] at h
      exact .inl h
    · simp only [not_or, Bool.not_eq_false] at hopen
      exact .inr ⟨rfl, hopen.2.2⟩
  · refine .inl ?_
    unfold Kernel.epollCtl at h
    cases op <;> dsimp only at h <;> split_ifs at h <;> simpa [hx] using h

theorem Ready.modify (h : Ready io k) (op : EpollOp) (fd : Int) (refused : Bool) :
    Ready io (modifyEpollEvent io k op fd refused).1 where
  epollFd := h.epollFd
  epoll_open := by rw [modifyEpollEvent_isOpen, h.epoll_open]
  unlocked := h.unlocked
  watched := by
    unfold modifyEpollEvent
    split_ifs with hready hfd
    · exact h.watched
    · exact h.watched
    · intro x hx
      rw [epollCtl_isOpen]
      rcases epollCtl_interest hx with hold | ⟨rfl, hopen⟩
      · exact h.watched x hold
      · exact ⟨not_lt.mp hfd, hopen⟩

theorem Ready.wakeup (h : Ready io k) : Ready io (wakeupModule io k) where
  epollFd := h.epollFd
  epoll_open := by rw [wakeupModule_isOpen, h.epoll_open]
  unlocked := h.unlocked
  watched := by simpa using h.watched

theorem modifyEpollEvent_del (h : Running io k) (fd : Int) :
    (modifyEpollEvent io k .del fd false).1.interest = Function.update k.interest fd false := by
  cases hi : k.interest fd with
  | true =>
    obtain ⟨hfd, hopen⟩ := h.watched fd hi
    have hreaches : Reaches io k fd false :=
      ⟨h.initialized, h.epollFd, hfd, rfl, h.epoll_open, hopen⟩
    rw [(modifyEpollEvent_reaches hreaches).2 hi]
  | false =>
    have hsame : modifyEpollEvent io k .del fd false = (k, -1) := by
      unfold modifyEpollEvent
      split_ifs
      · rfl
      · rfl
      · simp [Kernel.epollCtl, hi]
    rw [hsame, ← hi, Function.update_eq_self]

theorem apply_add (h : Running io k) {m : M} {fd : Int} (refused : Bool)
    (hop : 0 ≤ fd → io.ioMembers fd = none) :
    ∃ io' k', (Op.add m fd refused).apply io k = some (io', k') ∧
      Follows io io' k' ((Op.add m fd refused).table io.ioMembers) := by
  by_cases hfd : fd < 0
  · refine ⟨io, k, by simp [Op.apply, addIoMember, hfd], h, ?_, rfl, rfl⟩
    simp [Op.table, hfd]
  · let io' := { io with ioMembers := Function.update io.ioMembers fd (some m) }
    have hready : Ready io' k := ⟨h.epollFd, h.epoll_open, h.unlocked, h.watched⟩
    refine ⟨io', wakeupModule io' (modifyEpollEvent io' k .add fd refused).1, ?_,
      ⟨(hready.modify .add fd refused).wakeup, h.initialized⟩, ?_, rfl, rfl⟩
    · simp [Op.apply, addIoMember, hfd, h.unlocked, hop (not_lt.mp hfd), io']
    · simp [Op.table, hfd, io']

theorem apply_remove (h : Running io k) {fd : Int} (refused : Bool)
    (hop : io.ioMembers fd ≠ none) :
    ∃ io' k', (Op.remove fd refused).apply io k = some (io', k') ∧
      Follows io io' k' ((Op.remove fd refused).table io.ioMembers) := by
  obtain ⟨m, hm⟩ := Option.ne_none_iff_exists'.mp hop
  let io' := { io with ioMembers := Function.update io.ioMembers fd none }
  have hready : Ready io' k := ⟨h.epollFd, h.epoll_open, h.unlocked, h.watched⟩
  refine ⟨io', (modifyEpollEvent io' k .del fd refused).1, ?_,
    ⟨hready.modify .del fd refused, h.initialized⟩, rfl, rfl, rfl⟩
  simp [Op.apply, removeIoMember, h.unlocked, hm, io']

/-- An operation of a callback goes through and changes the table as its caller means it. -/
theorem apply_spec (h : Running io k) {op : Op M} (hop : op.Allowed io.epollFd io.ioMembers) :
    ∃ io' k', op.apply io k = some (io', k') ∧ Follows io io' k' (op.table io.ioMembers) := by
  cases op with
  | add m fd refused => exact apply_add h refused hop
  | remove fd refused => exact apply_remove h refused hop
  | openFd fd =>
    refine ⟨io, k.openFd fd, rfl, ⟨⟨h.epollFd, ?_, h.unlocked, fun x hx => ?_⟩, h.initialized⟩,
      rfl, rfl, rfl⟩
    · simp [Kernel.openFd, Function.update_apply, h.epoll_open]
    · have hwatched := h.watched x hx
      exact ⟨hwatched.1, by simp [Kernel.openFd, Function.update_apply, hwatched.2]⟩
  | closeFd fd =>
    refine ⟨io, k.close fd, rfl, ⟨⟨h.epollFd, ?_, h.unlocked, fun x hx => ?_⟩, h.initialized⟩,
      rfl, rfl, rfl⟩
    · have hne : io.epollFd ≠ fd := fun he => hop he.symm
      simpa [Kernel.close, hne] using h.epoll_open
    · have hne : x ≠ fd := by
        rintro rfl
        simp [Kernel.close] at hx
      have hwatched := h.watched x (by simpa [Kernel.close, hne] using hx)
      exact ⟨hwatched.1, by simpa [Kernel.close, hne] using hwatched.2⟩
  | stop fails =>
    rcases hs : Io.stop io k fails with ⟨io', k', res⟩
    refine ⟨io', k', by simp [Op.apply, hs], ?_⟩
    rcases stop_cases hs with ⟨-, rfl, rfl⟩ | ⟨-, -, rfl, rfl⟩
    · exact ⟨h, rfl, rfl, rfl⟩
    · have hstate : ComponentState.initialized ≠ .created := by decide
      exact ⟨⟨⟨h.epollFd, h.epoll_open, h.unlocked, h.watched⟩, hstate⟩, rfl, rfl, rfl⟩

theorem runOps_spec (h : Running io k) {ops : List (Op M)}
    (hops : Proper io.epollFd io.ioMembers ops) :
    ∃ io' k', runOps io k ops = some (io', k') ∧ Follows io io' k' (replay io.ioMembers ops) := by
  induction ops generalizing io k with
  | nil => exact ⟨io, k, rfl, h, rfl, rfl, rfl⟩
  | cons op ops ih =>
    obtain ⟨io₁, k₁, hop, hfollows⟩ := apply_spec h hops.1
    have hrest : Proper io₁.epollFd io₁.ioMembers ops := by
      rw [hfollows.epollFd, hfollows.table]
      exact hops.2
    obtain ⟨io₂, k₂, hrun, hlast⟩ := ih hfollows.running hrest
    refine ⟨io₂, k₂, by simp [runOps, hop, hrun], hlast.running, ?_,
      hlast.epollFd.trans hfollows.epollFd, hlast.wakeUpPipeFd.trans hfollows.wakeUpPipeFd⟩
    rw [hlast.table, hfollows.table]
    rfl

/-- The callback for an event, with the table as it is when the event's turn comes. -/
def expected (wakeUpFd : Int) (table : Int → Option M) (e : Event) : Option (M × Callback) :=
  if e.fd = wakeUpFd then none
  else (table e.fd).map fun m => (m, if e.failed = true then .onIoError else .onReadAvailable)

/-- What table and kernel are after a turn: a byte is gone from the pipe, or the callback's
operations have run. -/
def Effect (u v : Loop M) (t : Turn M) : Prop :=
  if t.event.fd = u.io.wakeUpPipeFd.1 then
    v.io = u.io ∧ v.kernel = { u.kernel with pipe := u.kernel.pipe.tail }
  else runOps u.io u.kernel t.ops = some (v.io, v.kernel)

/-- One turn, from loop state to loop state. -/
structure TurnSpec (u v : Loop M) (t : Turn M) : Prop where
  follows : Follows u.io v.io v.kernel (replay u.io.ioMembers t.ops)
  call : t.call = expected u.io.wakeUpPipeFd.1 u.io.ioMembers t.event
  /-- The operations and the action are what the callback answers then. -/
  reaction : ∀ m callback, t.call = some (m, callback) →
    t.ops = (react u.calls m callback u.io).ops ∧
      (callback = .onIoError → t.action = (react u.calls m callback u.io).action)
  idle : t.call = none → t.ops = []
  effect : Effect u v t
  calls : v.calls = u.calls ++ t.call.toList
  closeFds : v.closeFds = u.closeFds ++ if t.action = .delete then [t.event.fd] else []
  action : t.action = .delete → ∃ m, t.call = some (m, .onIoError)
  byte : t.byte = if t.event.fd = u.io.wakeUpPipeFd.1 then u.kernel.pipe.head? else none
  flag : v.wakeupFlag = t.byte.getD u.wakeupFlag

theorem Running.read {u : Loop M} (h : Running u.io u.kernel) :
    Follows u.io (readWakeup u).1.io (readWakeup u).1.kernel u.io.ioMembers := by
  unfold readWakeup
  split
  · exact ⟨h, rfl, rfl, rfl⟩
  · exact ⟨⟨⟨h.epollFd, h.epoll_open, h.unlocked, h.watched⟩, h.initialized⟩, rfl, rfl, rfl⟩

theorem readWakeup_turn {u : Loop M} (h : Running u.io u.kernel) {e : Event}
    (hfd : e.fd = u.io.wakeUpPipeFd.1) :
    TurnSpec react u (readWakeup u).1 { event := e, byte := (readWakeup u).2 } where
  follows := h.read
  call := (if_pos hfd).symm
  reaction _ _ hcall := by cases hcall
  idle _ := rfl
  effect := by
    rw [Effect, if_pos hfd]
    unfold readWakeup
    split
    · next hpipe => exact ⟨rfl, by rw [hpipe, List.tail_nil, ← hpipe]⟩
    · next hpipe => exact ⟨rfl, by rw [hpipe, List.tail_cons]⟩
  calls := by
    unfold readWakeup
    split <;> simp
  closeFds := by
    unfold readWakeup
    split <;> simp
  action := nofun
  byte := by
    rw [if_pos hfd]
    unfold readWakeup
    split
    · next hpipe => rw [hpipe, List.head?_nil]
    · next hpipe => rw [hpipe, List.head?_cons]
  flag := by
    unfold readWakeup
    split <;> rfl

/-- The carried member is the one that was just looked up. -/
theorem callMember_turn {u : Loop M} (h : Running u.io u.kernel) {e : Event} {m : M}
    (hfd : e.fd ≠ u.io.wakeUpPipeFd.1) (hm : u.io.ioMembers e.fd = some m) :
    ∃ v t, callMember react { u with curMember := some m } e = some (v, t) ∧ t.event = e ∧
      TurnSpec react u v t := by
  have hcall : expected u.io.wakeUpPipeFd.1 u.io.ioMembers e =
      some (m, if e.failed = true then .onIoError else .onReadAvailable) := by
    simp [expected, hfd, hm]
  by_cases hfailed : e.failed = true
  · obtain ⟨io, k, hrun, hfollows⟩ := runOps_spec h (react u.calls m .onIoError u.io).proper
    refine ⟨_, _, by simp only [callMember, hfailed, if_true, hrun, Option.map_some]; rfl, rfl, ?_⟩
    refine ⟨hfollows, by simp [hcall, hfailed], ?_, nofun, ?_, rfl, ?_, fun _ => ⟨m, rfl⟩,
      (if_neg hfd).symm, rfl⟩
    · rintro _ _ ⟨⟩
      exact ⟨rfl, fun _ => rfl⟩
    · rw [Effect, if_neg hfd]
      exact hrun
    · split_ifs <;> simp
  · obtain ⟨io, k, hrun, hfollows⟩ := runOps_spec h (react u.calls m .onReadAvailable u.io).proper
    refine ⟨_, _, by simp only [callMember, if_neg hfailed, hrun, Option.map_some]; rfl, rfl, ?_⟩
    refine ⟨hfollows, by simp [hcall, hfailed], ?_, nofun, ?_, rfl, by simp, nofun,
      (if_neg hfd).symm, rfl⟩
    · rintro _ _ ⟨⟩
      exact ⟨rfl, nofun⟩
    · rw [Effect, if_neg hfd]
      exact hrun

theorem handleEvent_turn {u : Loop M} (h : Running u.io u.kernel) (e : Event) :
    ∃ v t, handleEvent react u e = some (v, t) ∧ t.event = e ∧ TurnSpec react u v t := by
  by_cases hfd : e.fd = u.io.wakeUpPipeFd.1
  · exact ⟨_, _, if_pos hfd, rfl, readWakeup_turn react h hfd⟩
  · cases hm : u.io.ioMembers e.fd with
    | none =>
      refine ⟨u, { event := e }, by simp [handleEvent, hfd, h.unlocked, hm], rfl,
        ⟨h, rfl, rfl, rfl⟩, by simp [expected, hfd, hm], nofun, fun _ => rfl, ?_, by simp, by simp,
        nofun, (if_neg hfd).symm, rfl⟩
      rw [Effect, if_neg hfd]
      rfl
    | some m =>
      obtain ⟨v, t, hcall, he, ht⟩ := callMember_turn react h hfd hm
      exact ⟨v, t, by simp [handleEvent, hfd, h.unlocked, hm, hcall], he, ht⟩

/-- Turns one behind the other, each from the state that the one before it left. -/
def Turned : Loop M → List (Turn M) → Loop M → Prop
  | u, [], v => v = u
  | u, t :: turns, v => ∃ w, TurnSpec react u w t ∧ Turned w turns v

/-- The operations of the callbacks of some turns, in order. -/
def opsOf (turns : List (Turn M)) : List (Op M) := turns.flatMap Turn.ops

/-- The fds whose onIoError returned DELETE. -/
def deletedFds (turns : List (Turn M)) : List Int :=
  (turns.filter fun t => t.action = .delete).map fun t => t.event.fd

/-- The flag after the reads of some turns. -/
def flagAfter (flag : WakeFlag) (turns : List (Turn M)) : WakeFlag :=
  turns.foldl (fun flag t => t.byte.getD flag) flag

/-- A batch, from loop state to loop state. -/
structure BatchSpec (u v : Loop M) (batch : List Event) (turns : List (Turn M)) : Prop where
  follows : Follows u.io v.io v.kernel (replay u.io.ioMembers (opsOf turns))
  turned : Turned react u turns v
  order : turns.map Turn.event = batch
  call : ∀ pre t post, turns = pre ++ t :: post →
    t.call = expected u.io.wakeUpPipeFd.1 (replay u.io.ioMembers (opsOf pre)) t.event
  calls : v.calls = u.calls ++ turns.filterMap Turn.call
  closeFds : v.closeFds = u.closeFds ++ deletedFds turns
  action : ∀ t ∈ turns, t.action = .delete → ∃ m, t.call = some (m, .onIoError)
  byte : ∀ t ∈ turns, t.byte ≠ none → t.event.fd = u.io.wakeUpPipeFd.1
  flag : v.wakeupFlag = flagAfter u.wakeupFlag turns

theorem BatchSpec.cons {u v w : Loop M} {t : Turn M} {batch : List Event}
    {turns : List (Turn M)} (ht : TurnSpec react u v t) (hb : BatchSpec react v w batch turns) :
    BatchSpec react u w (t.event :: batch) (t :: turns) where
  follows := by
    refine ⟨hb.follows.running, ?_, hb.follows.epollFd.trans ht.follows.epollFd,
      hb.follows.wakeUpPipeFd.trans ht.follows.wakeUpPipeFd⟩
    rw [hb.follows.table, ht.follows.table, replay, replay, replay, ← List.foldl_append]
    rfl
  turned := ⟨v, ht, hb.turned⟩
  order := by rw [List.map_cons, hb.order]
  call pre x post he := by
    cases pre with
    | nil =>
      obtain ⟨rfl, -⟩ := List.cons.inj he
      rw [ht.call]
      rfl
    | cons y pre =>
      obtain ⟨rfl, hrest⟩ := List.cons.inj he
      rw [hb.call pre x post hrest, ht.follows.wakeUpPipeFd, ht.follows.table, replay, replay,
        replay, ← List.foldl_append]
      rfl
  calls := by
    rw [hb.calls, ht.calls, List.append_assoc]
    cases hc : t.call <;> simp [hc]
  closeFds := by
    rw [hb.closeFds, ht.closeFds, List.append_assoc]
    by_cases hd : t.action = .delete <;> simp [deletedFds, hd]
  action := List.forall_mem_cons.mpr ⟨ht.action, hb.action⟩
  byte := by
    refine List.forall_mem_cons.mpr ⟨fun hbyte => ?_, fun x hx hbyte => ?_⟩
    · by_contra hfd
      exact hbyte (ht.byte.trans (if_neg hfd))
    · rw [hb.byte x hx hbyte, ht.follows.wakeUpPipeFd]
  flag := by
    rw [hb.flag, ht.flag]
    rfl

theorem dispatch_batch {u : Loop M} (h : Running u.io u.kernel) (batch : List Event) :
    ∃ v turns, dispatch react u batch = some (v, turns) ∧ BatchSpec react u v batch turns := by
  induction batch generalizing u with
  | nil =>
    exact ⟨u, [], rfl, ⟨h, rfl, rfl, rfl⟩, rfl, rfl, by simp, by simp, by simp [deletedFds],
      by simp, by simp, rfl⟩
  | cons e batch ih =>
    obtain ⟨v, t, hturn, rfl, ht⟩ := handleEvent_turn react h e
    obtain ⟨w, turns, hrest, hb⟩ := ih ht.follows.running
    exact ⟨w, t :: turns, by simp [dispatch, hturn, hrest], hb.cons react ht⟩

theorem closeDeleted_spec {io : IoModule M} {k : Kernel} (h : Running io k) (fds : List Int) :
    ∃ io' k', closeDeleted io k fds = some (io', k') ∧ Running io' k' ∧
      io'.wakeUpPipeFd = io.wakeUpPipeFd ∧
      (∀ fd ∈ fds, io'.ioMembers fd = none ∧ k'.interest fd = false) ∧
      ∀ fd, fd ∉ fds → io'.ioMembers fd = io.ioMembers fd ∧ k'.interest fd = k.interest fd := by
  induction fds generalizing io k with
  | nil => exact ⟨io, k, rfl, h, rfl, by simp, fun _ _ => ⟨rfl, rfl⟩⟩
  | cons fd fds ih =>
    have hdel := modifyEpollEvent_del h fd
    let io₁ := { io with ioMembers := Function.update io.ioMembers fd none }
    have hready := h.toReady.modify .del fd false
    have h₁ : Running io₁ (modifyEpollEvent io k .del fd false).1 :=
      ⟨⟨hready.epollFd, hready.epoll_open, hready.unlocked, hready.watched⟩, h.initialized⟩
    obtain ⟨io', k', hclose, hrun, hpipe, hin, hout⟩ := ih h₁
    have hfirst : closeDeleted io k (fd :: fds) =
        closeDeleted io₁ (modifyEpollEvent io k .del fd false).1 fds :=
      if_neg (by simp [h.unlocked])
    refine ⟨io', k', hfirst.trans hclose, hrun, hpipe, ?_, ?_⟩
    · refine List.forall_mem_cons.mpr ⟨?_, hin⟩
      by_cases hmem : fd ∈ fds
      · exact hin fd hmem
      · rw [(hout fd hmem).1, (hout fd hmem).2, hdel]
        exact ⟨Function.update_self .., Function.update_self ..⟩
    · intro x hx
      obtain ⟨hne, hmem⟩ := not_or.mp (List.mem_cons.not.mp hx)
      rw [(hout x hmem).1, (hout x hmem).2, hdel]
      exact ⟨Function.update_of_ne hne .., Function.update_of_ne hne ..⟩

/-- A pass reads the stop byte. -/
def Pass.ReadsStop (p : Pass M) : Prop := ∃ t ∈ p.turns, t.byte = some .stop

/-- What a pass does, callback by callback, and what it adds to their effects. -/
structure Faithful (p : Pass M) : Prop where
  /-- One turn for each event, in batch order, with one callback at most. -/
  order : p.turns.map Turn.event = p.batch
  turned : Turned react p.before p.turns p.handled
  /-- It goes to the member that the table then has for the fd. -/
  call : ∀ pre t post, p.turns = pre ++ t :: post →
    t.call = expected p.before.io.wakeUpPipeFd.1
      (replay p.before.io.ioMembers (opsOf pre)) t.event
  calls : p.handled.calls = p.before.calls ++ p.turns.filterMap Turn.call
  /-- A member that an earlier callback has removed, and none has added since, gets none. -/
  removed : ∀ pre t post a refused b, p.turns = pre ++ t :: post →
    opsOf pre = a ++ .remove t.event.fd refused :: b →
    (∀ m refused, .add m t.event.fd refused ∉ b) → t.call = none
  table : p.handled.io.ioMembers = replay p.before.io.ioMembers (opsOf p.turns)
  deleted : ∀ fd, (∃ t ∈ p.turns, (∃ m, t.call = some (m, .onIoError)) ∧ t.action = .delete ∧
      t.event.fd = fd) →
    p.after.io.ioMembers fd = none ∧ p.after.kernel.interest fd = false
  kept : ∀ fd, (∀ t ∈ p.turns, (∃ m, t.call = some (m, .onIoError)) → t.action = .delete →
      t.event.fd ≠ fd) →
    p.after.io.ioMembers fd = p.handled.io.ioMembers fd ∧
      p.after.kernel.interest fd = p.handled.kernel.interest fd

theorem replay_removed {table : Int → Option M} {fd : Int} {refused : Bool} {a b : List (Op M)}
    (hb : ∀ m refused, .add m fd refused ∉ b) :
    replay table (a ++ .remove fd refused :: b) fd = none := by
  have hkeep (t : Int → Option M) (ht : t fd = none) : replay t b fd = none := by
    induction b generalizing t with
    | nil => exact ht
    | cons op b ih =>
      refine ih (fun m r hm => hb m r (List.mem_cons_of_mem _ hm)) (op.table t) ?_
      cases op with
      | add m x r =>
        have hne : fd ≠ x := by
          rintro rfl
          exact hb m r List.mem_cons_self
        by_cases hx : x < 0
        · simpa [Op.table, hx] using ht
        · simpa [Op.table, hx, hne] using ht
      | remove x r =>
        by_cases hne : fd = x
        · simp [Op.table, hne]
        · simpa [Op.table, hne] using ht
      | openFd x => exact ht
      | closeFd x => exact ht
      | stop fails => exact ht
  rw [replay, List.foldl_append]
  exact hkeep _ (Function.update_self ..)

theorem flagAfter_none (flag : WakeFlag) {turns : List (Turn M)}
    (h : ∀ t ∈ turns, t.byte = none) : flagAfter flag turns = flag := by
  induction turns with
  | nil => rfl
  | cons t turns ih =>
    rw [List.forall_mem_cons] at h
    simpa [flagAfter, h.1] using ih h.2

/-- With each fd at most once in the batch, the flag ends up as the stop byte exactly when the
stop byte was read. -/
theorem flagAfter_stop {wakeUpFd : Int} {turns : List (Turn M)}
    (hnd : (turns.map fun t => t.event.fd).Nodup)
    (hbyte : ∀ t ∈ turns, t.byte ≠ none → t.event.fd = wakeUpFd) :
    flagAfter .wakeup turns = .stop ↔ ∃ t ∈ turns, t.byte = some .stop := by
  induction turns with
  | nil => simp [flagAfter]
  | cons t turns ih =>
    rw [List.map_cons, List.nodup_cons] at hnd
    rw [List.forall_mem_cons] at hbyte
    cases ht : t.byte with
    | none => simpa [flagAfter, ht] using ih hnd.2 hbyte.2
    | some byte =>
      have hfd := hbyte.1 (by simp [ht])
      have hnone : ∀ x ∈ turns, x.byte = none := by
        intro x hx
        by_contra hne
        refine hnd.1 (List.mem_map.mpr ⟨x, hx, ?_⟩)
        rw [hfd, hbyte.2 x hx hne]
      have hstart : flagAfter .wakeup (t :: turns) = flagAfter byte turns := by
        simp [flagAfter, ht]
      rw [hstart, flagAfter_none byte hnone]
      simp only [List.mem_cons, exists_eq_or_imp, ht, Option.some.injEq]
      exact ⟨.inl, fun h => h.resolve_right fun ⟨x, hx, hs⟩ => by simp [hnone x hx] at hs⟩

theorem pass_faithful {u : Loop M} (h : Running u.io u.kernel) (hclose : u.closeFds = [])
    (hflag : u.wakeupFlag = .wakeup) {batch : List Event} (hnd : (batch.map Event.fd).Nodup) :
    ∃ p, pass react u batch = some p ∧ p.batch = batch ∧ Faithful react p ∧
      Running p.after.io p.after.kernel ∧ p.after.closeFds = [] ∧
      (p.after.wakeupFlag = .stop ↔ p.ReadsStop) := by
  obtain ⟨v, turns, hdispatch, hb⟩ := dispatch_batch react h batch
  obtain ⟨io, k, hdeleted, hrun, -, hin, hout⟩ := closeDeleted_spec hb.follows.running v.closeFds
  have hmem (fd : Int) : fd ∈ v.closeFds ↔ ∃ t ∈ turns, t.action = .delete ∧ t.event.fd = fd := by
    rw [hb.closeFds, hclose]
    simp [deletedFds, and_assoc]
  refine ⟨⟨u, batch, turns, v, { v with io := io, kernel := k, closeFds := [] }⟩,
    by simp [pass, hdispatch, hdeleted], rfl, ?_, hrun, rfl, ?_⟩
  · refine ⟨hb.order, hb.turned, hb.call, hb.calls, ?_, hb.follows.table, ?_, ?_⟩
    · intro pre t post a refused b hsplit hops hadd
      rw [hb.call pre t post hsplit, hops, expected, replay_removed hadd]
      split_ifs <;> rfl
    · rintro fd ⟨t, ht, -, hdelete, hfd⟩
      exact hin fd ((hmem fd).mpr ⟨t, ht, hdelete, hfd⟩)
    · intro fd hkept
      refine hout fd fun hfd => ?_
      obtain ⟨t, ht, hdelete, hfd⟩ := (hmem fd).mp hfd
      exact hkept t ht (hb.action t ht hdelete) hdelete hfd
  · have hfds : (turns.map fun t => t.event.fd).Nodup := by
      rw [← hb.order, List.map_map] at hnd
      exact hnd
    change v.wakeupFlag = .stop ↔ _
    rw [hb.flag, hflag]
    exact flagAfter_stop hfds hb.byte

/-- Each pass starts from what the one before it left, once the other threads have done what they
do meanwhile, and the last one leaves `v`. -/
def Linked : Loop M → List (Round M) → List (Pass M) → Loop M → Prop
  | u, _, [], v => v = u
  | _, [], _ :: _, _ => False
  | u, r :: rounds, p :: passes, v =>
    (∃ io k, runOps u.io u.kernel (r.meanwhile u.io).1 = some (io, k) ∧
      pass react { u with io := io, kernel := k } r.batch = some p) ∧
    Linked p.after rounds passes v

/-- The loop from a state between two passes. -/
theorem waitLoop_faithful {u : Loop M} (h : Running u.io u.kernel) (hclose : u.closeFds = [])
    (hflag : u.wakeupFlag = .wakeup) {rounds : List (Round M)}
    (hnd : ∀ r ∈ rounds, (r.batch.map Event.fd).Nodup) :
    ∃ v passes left, waitLoop react u rounds = some (v, passes, left) ∧
      Linked react u rounds passes v ∧ (∀ p ∈ passes, Faithful react p) ∧
      passes.map Pass.batch <+: rounds.map Round.batch ∧
      (left = false → passes.length = rounds.length) ∧ (left = true ↔ ∃ p ∈ passes, p.ReadsStop) ∧
      ∀ pre p post, passes = pre ++ p :: post → p.ReadsStop → post = [] := by
  induction rounds generalizing u with
  | nil => exact ⟨u, [], false, rfl, rfl, by simp, by simp, fun _ => rfl, by simp, by simp⟩
  | cons r rounds ih =>
    rw [List.forall_mem_cons] at hnd
    obtain ⟨io, k, hops, hfollows⟩ := runOps_spec h (r.meanwhile u.io).2
    obtain ⟨p, hpass, hbatch, hfaithful, hrun, hclose', hstop⟩ :=
      pass_faithful react (u := { u with io := io, kernel := k }) hfollows.running hclose hflag hnd.1
    by_cases hread : p.ReadsStop
    · refine ⟨p.after, [p], true, ?_, ⟨⟨io, k, hops, hpass⟩, by rw [Linked]⟩, ?_, ?_, nofun,
        ?_, ?_⟩
      · simp [waitLoop, hops, hpass, hstop.mpr hread]
      · exact List.forall_mem_singleton.mpr hfaithful
      · simp [hbatch]
      · simp [hread]
      · intro pre x post hsplit _
        cases pre with
        | nil => exact (List.cons.inj hsplit).2.symm
        | cons y pre => simp at hsplit
    · have hwake : p.after.wakeupFlag = .wakeup := by
        cases hf : p.after.wakeupFlag with
        | wakeup => rfl
        | stop => exact absurd (hstop.mp hf) hread
      obtain ⟨v, passes, left, hloop, hlinked, hall, hprefix, hlength, hleft, hlast⟩ :=
        ih hrun hclose' hwake hnd.2
      refine ⟨v, p :: passes, left, ?_, ⟨⟨io, k, hops, hpass⟩, hlinked⟩, ?_, ?_, ?_, ?_, ?_⟩
      · simp [waitLoop, hops, hpass, hwake, hloop]
      · exact List.forall_mem_cons.mpr ⟨hfaithful, hall⟩
      · simpa [hbatch] using hprefix
      · simpa using hlength
      · simp [hleft, hread]
      · intro pre x post hsplit hx
        cases pre with
        | nil =>
          obtain rfl := (List.cons.inj hsplit).1
          exact absurd hx hread
        | cons y pre => exact hlast pre x post (List.cons.inj hsplit).2 hx

/-- Two members; the callback of member 50 takes the other one out. -/
def twoMembers : IoModule Nat :=
  { epollFd := 4, wakeUpPipeFd := (3, 7), ioMembers := fun fd =>
      if fd = 5 then some 50 else if fd = 6 then some 60 else none }

def twoWatched : Kernel where
  isOpen := fun fd => decide (3 ≤ fd ∧ fd ≤ 7)
  interest := fun fd => decide (fd = 3 ∨ fd = 5 ∨ fd = 6)
  pipe := [.stop]

def removesOther : Behaviour Nat := fun _ m _ io =>
  if h : m = 50 ∧ io.ioMembers 6 ≠ none then ⟨[.remove 6 false], .null, h.2, trivial⟩
  else ⟨[], .null, trivial⟩

def bothAndPipe : Round Nat where
  meanwhile := fun _ => ⟨[], trivial⟩
  batch := [⟨5, true, false, false⟩, ⟨6, true, false, true⟩, ⟨3, true, false, false⟩]

/-- The removed member is not called, and the stop byte ends the loop. -/
example : (waitThreadFunc removesOther twoMembers twoWatched [bothAndPipe]).map
    (fun (_, _, passes, left) => (passes.map fun p => p.after.calls, left)) =
      some ([[(50, .onReadAvailable)]], true) := by rfl

end DericRpc.EventLoop
