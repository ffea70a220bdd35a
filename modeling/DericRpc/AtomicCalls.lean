import DericRpc.IoTable
import DericRpc.MembersLock
import DericRpc.Lib.Simulation
import Mathlib.Data.List.Nodup
import Mathlib.Logic.Function.Iterate

/-! addIoMember and removeIoMember give the mutex back before they call epoll_ctl, and the dispatch
loop calls it before it takes the mutex: table and epoll are not changed together. Where no two
threads are at one descriptor this does not show, and every call is as good as one step. -/
namespace DericRpc.AtomicCalls
open Common Io Lts Simulation MembersLock
variable {T M : Type} [DecidableEq T]

/-- The module under calls of one step each, with what the last call of each thread returned. -/
structure Module (T M : Type) where
  io : IoModule M
  kernel : Kernel
  res : T → Int

inductive Call (M : Type) where
  | add (ioMember : Option (M × Int)) (refused : Bool)
  | remove (ioMember : Option Int) (refused : Bool)
  | lookup
  | drop (fd : Int) (refused : Bool)

def Module.returns (x : Module T M) (t : T) (out : IoModule M × Kernel × Int) : Module T M :=
  ⟨out.1, out.2.1, Function.update x.res t out.2.2⟩

/-- The dispatch loop's own removal; it does not look at the result of epoll_ctl. -/
def dropMember (io : IoModule M) (k : Kernel) (fd : Int) (refused : Bool) :
    IoModule M × Kernel × Int :=
  ({ io with ioMembers := Function.update io.ioMembers fd none },
    (modifyEpollEvent io k .del fd refused).1, 0)

def call (x : Module T M) (a : T × Call M) : Option (Module T M) :=
  match a.2 with
  | .add ioMember refused => (addIoMember x.io x.kernel ioMember refused).map (x.returns a.1)
  | .remove ioMember refused => (removeIoMember x.io x.kernel ioMember refused).map (x.returns a.1)
  | .lookup => if x.io.ioMembersMutex = true then none else some (x.returns a.1 (x.io, x.kernel, 0))
  | .drop fd refused =>
    if x.io.ioMembersMutex = true then none
    else some (x.returns a.1 (dropMember x.io x.kernel fd refused))

/-- The call that takes effect with a step: that of its epoll_ctl, or of its return where it does
not get that far. -/
def atomic (m : Move (Sys T M) (Act T M)) : List (T × Call M) :=
  match m.act with
  | .callAdd t none => [(t, .add none false)]
  | .callAdd t (some (member, fd)) => if fd < 0 then [(t, .add (some (member, fd)) false)] else []
  | .callRemove t none => [(t, .remove none false)]
  | .next t refused =>
    match m.pre.pc t with
    | .addEpoll fd =>
      ((m.pre.io.ioMembers fd).map fun member => (t, Call.add (some (member, fd)) refused)).toList
    | .removeEpoll fd => [(t, .remove (some fd) refused)]
    | .lookupUnlock => [(t, .lookup)]
    | .dropEpoll fd => [(t, .drop fd refused)]
    | _ => []
  | _ => []

/-- The descriptor that a thread is at, until table and epoll agree about it again. -/
def busy : Pc M → Option Int
  | .addLock _ fd | .addFind _ fd | .addStore _ fd | .addUnlock fd | .addEpoll fd
  | .removeLock fd | .removeFind fd | .removeErase fd | .removeUnlock fd | .removeEpoll fd
  | .dropEpoll fd | .dropLock fd | .dropErase fd => some fd
  | _ => none

/-- Where only one of table and epoll was changed. -/
def between : Pc M → Option Int
  | .addUnlock fd | .addEpoll fd | .removeUnlock fd | .removeEpoll fd | .dropLock fd
  | .dropErase fd => some fd
  | _ => none

/-- No call begins at a descriptor that another one is at. -/
def Apart (u : Sys T M) : Act T M → Prop
  | .callAdd _ (some (_, fd)) | .callRemove _ (some fd) | .callDrop _ fd =>
    ∀ t, busy (u.pc t) ≠ some fd
  | _ => True

/-- What the place of a thread says about its descriptor in the table and in the module above, and
about its result. -/
def Agrees (u : Sys T M) (x : Module T M) (t : T) : Pc M → Prop
  | .out res | .addWakeup res => x.res t = res
  | .addLock _ fd | .addFind _ fd => 0 ≤ fd
  | .addStore _ fd => 0 ≤ fd ∧ u.io.ioMembers fd = none
  | .addUnlock fd | .addEpoll fd =>
    0 ≤ fd ∧ x.io.ioMembers fd = none ∧ u.io.ioMembers fd ≠ none
  | .removeErase fd => u.io.ioMembers fd ≠ none
  | .removeUnlock fd | .removeEpoll fd =>
    u.io.ioMembers fd = none ∧ x.io.ioMembers fd ≠ none
  | .dropLock fd | .dropErase fd => x.io.ioMembers fd = none ∧ x.res t = 0
  | .dropUnlock => x.res t = 0
  | _ => True

/-- The wake-ups that are still to be written. -/
def Waking (u : Sys T M) (ts : List T) : Prop :=
  ts.Nodup ∧ ∀ t, t ∈ ts ↔ ∃ res, u.pc t = .addWakeup res

structure Refines (u : Sys T M) (x : Module T M) : Prop where
  module : x.io = { u.io with ioMembersMutex := false, ioMembers := x.io.ioMembers }
  kernel : ∃ ts, Waking u ts ∧ x.kernel = (wakeupModule u.io)^[ts.length] u.kernel
  table : ∀ fd, (∀ t, between (u.pc t) ≠ some fd) → x.io.ioMembers fd = u.io.ioMembers fd
  apart : ∀ t t' fd, busy (u.pc t) = some fd → busy (u.pc t') = some fd → t = t'
  agrees : ∀ t, Agrees u x t (u.pc t)

variable {u v : Sys T M} {x y : Module T M} {t : T} {p : Pc M} {fd : Int}

@[simp] theorem returns_res (out : IoModule M × Kernel × Int) :
    (x.returns t out).res t = out.2.2 := Function.update_self ..

omit [DecidableEq T] in
theorem busy_of_between (h : between p = some fd) : busy p = some fd := by
  cases p <;> first | exact h | cases h

omit [DecidableEq T] in
theorem Agrees.frame (h : Agrees u x t p)
    (hu : ∀ fd, busy p = some fd → v.io.ioMembers fd = u.io.ioMembers fd)
    (hx : ∀ fd, busy p = some fd → y.io.ioMembers fd = x.io.ioMembers fd)
    (hres : y.res t = x.res t) : Agrees v y t p := by
  cases p with
  | out res | addWakeup res => exact hres.trans h
  | addLock m fd | addFind m fd => exact h
  | addStore m fd => exact ⟨h.1, (hu fd rfl).trans h.2⟩
  | addUnlock fd | addEpoll fd => exact ⟨h.1, (hx fd rfl).trans h.2.1, hu fd rfl ▸ h.2.2⟩
  | removeErase fd => exact (hu fd rfl).trans_ne h
  | removeUnlock fd | removeEpoll fd => exact ⟨(hu fd rfl).trans h.1, hx fd rfl ▸ h.2⟩
  | dropLock fd | dropErase fd => exact ⟨(hx fd rfl).trans h.1, hres.trans h.2⟩
  | dropUnlock => exact hres.trans h
  | removeLock fd | removeFind fd | lookupLock fd | lookupFind fd | lookupUnlock | dropEpoll fd =>
    trivial

/-- A step of a thread that changes nothing but what belongs to its own descriptor. -/
theorem Refines.move (h : Refines u x) (hpc : v.pc = Function.update u.pc t p)
    (hmodule : y.io = { v.io with ioMembersMutex := false, ioMembers := y.io.ioMembers })
    (hkernel : ∃ ts, Waking v ts ∧ y.kernel = (wakeupModule v.io)^[ts.length] v.kernel)
    (hu : ∀ fd, busy (u.pc t) ≠ some fd → v.io.ioMembers fd = u.io.ioMembers fd)
    (hx : ∀ fd, busy (u.pc t) ≠ some fd → y.io.ioMembers fd = x.io.ioMembers fd)
    (hres : ∀ s, s ≠ t → y.res s = x.res s)
    (hbusy : ∀ fd, busy p = some fd → ∀ s, s ≠ t → busy (u.pc s) ≠ some fd)
    (hsync : ∀ fd, busy (u.pc t) = some fd → between p ≠ some fd →
      y.io.ioMembers fd = v.io.ioMembers fd)
    (hagrees : Agrees v y t p) : Refines v y where
  module := hmodule
  kernel := hkernel
  table fd hfd := by
    have hother (s : T) (hs : s ≠ t) : between (u.pc s) ≠ some fd := by
      have hsame := hfd s
      rwa [hpc, Function.update_of_ne hs] at hsame
    by_cases hat : busy (u.pc t) = some fd
    · have hp := hfd t
      rw [hpc, Function.update_self] at hp
      exact hsync fd hat hp
    · rw [hu fd hat, hx fd hat]
      refine h.table fd fun s => ?_
      by_cases hs : s = t
      · rw [hs]
        exact fun hbetween => hat (busy_of_between hbetween)
      · exact hother s hs
  apart s s' fd hs hs' := by
    rw [hpc] at hs hs'
    by_cases h1 : s = t <;> by_cases h2 : s' = t
    · exact h1.trans h2.symm
    · rw [h1, Function.update_self] at hs
      rw [Function.update_of_ne h2] at hs'
      exact absurd hs' (hbusy fd hs s' h2)
    · rw [h2, Function.update_self] at hs'
      rw [Function.update_of_ne h1] at hs
      exact absurd hs (hbusy fd hs' s h1)
    · rw [Function.update_of_ne h1] at hs
      rw [Function.update_of_ne h2] at hs'
      exact h.apart s s' fd hs hs'
  agrees s := by
    by_cases hs : s = t
    · rw [hs, hpc, Function.update_self]
      exact hagrees
    · have hother (fd : Int) (hfd : busy (u.pc s) = some fd) : busy (u.pc t) ≠ some fd :=
        fun hat => hs (h.apart s t fd hfd hat)
      rw [hpc, Function.update_of_ne hs]
      exact (h.agrees s).frame (fun fd hfd => hu fd (hother fd hfd))
        (fun fd hfd => hx fd (hother fd hfd)) (hres s hs)

omit [DecidableEq T] in
/-- Outside the two changes the table is that of the module above. -/
theorem Refines.own (h : Refines u x) (hat : busy (u.pc t) = some fd)
    (hout : between (u.pc t) ≠ some fd) : x.io.ioMembers fd = u.io.ioMembers fd := by
  refine h.table fd fun s hs => ?_
  obtain rfl := h.apart s t fd (busy_of_between hs) hat
  exact hout hs

theorem Waking.same {ts : List T} (h : Waking u ts) (hpc : v.pc = Function.update u.pc t p)
    (hw : ∀ res, u.pc t ≠ .addWakeup res) (hw' : ∀ res, p ≠ .addWakeup res) : Waking v ts := by
  refine ⟨h.1, fun s => (h.2 s).trans ?_⟩
  by_cases hs : s = t
  · rw [hs, hpc, Function.update_self]
    exact iff_of_false (fun hw'' => hw _ hw''.choose_spec) fun hw'' => hw' _ hw''.choose_spec
  · rw [hpc, Function.update_of_ne hs]

theorem Refines.still {b : Bool} (h : Refines u x) (hbusy : busy p = busy (u.pc t))
    (hbetween : between p = between (u.pc t)) (hw : ∀ res, u.pc t ≠ .addWakeup res)
    (hw' : ∀ res, p ≠ .addWakeup res) (hagrees : Agrees u x t p) :
    Refines ({ u with io := { u.io with ioMembersMutex := b } }.goto t p) x := by
  obtain ⟨ts, hts, hkernel⟩ := h.kernel
  refine h.move rfl h.module ⟨ts, hts.same rfl hw hw', hkernel⟩ (fun _ _ => rfl) (fun _ _ => rfl)
    (fun _ _ => rfl) (fun fd hfd s hs hat => ?_) (fun fd hat hout => ?_) hagrees
  · exact hs (h.apart s t fd hat (hbusy ▸ hfd))
  · exact h.own hat (hbetween ▸ hout)

theorem Refines.begins (h : Refines u x) {res : Int} (ht : u.pc t = .out res)
    (hapart : ∀ fd, busy p = some fd → ∀ s, busy (u.pc s) ≠ some fd)
    (hw' : ∀ res, p ≠ .addWakeup res) (hagrees : Agrees u x t p) : Refines (u.goto t p) x := by
  obtain ⟨ts, hts, hkernel⟩ := h.kernel
  have hfree (fd : Int) : busy (u.pc t) ≠ some fd := by
    rw [ht]
    exact fun hnone => by cases hnone
  refine h.move rfl h.module ⟨ts, hts.same rfl ?_ hw', hkernel⟩ (fun _ _ => rfl) (fun _ _ => rfl)
    (fun _ _ => rfl) (fun fd hfd s _ => hapart fd hfd s) (fun fd hat _ => absurd hat (hfree fd))
    hagrees
  rw [ht]
  exact fun _ hwaking => by cases hwaking

omit [DecidableEq T] in
theorem setMember_self {m : Option M} : (u.setMember fd m).io.ioMembers fd = m := by
  simp [Sys.setMember]

theorem Refines.writes (h : Refines u x) {m : Option M} (hat : busy (u.pc t) = some fd)
    (hbusy : busy p = some fd ∨ busy p = none)
    (hsync : between p = some fd ∨ x.io.ioMembers fd = m)
    (hw : ∀ res, u.pc t ≠ .addWakeup res) (hw' : ∀ res, p ≠ .addWakeup res)
    (hagrees : Agrees (u.setMember fd m) x t p) :
    Refines ((u.setMember fd m).goto t p) x := by
  obtain ⟨ts, hts, hkernel⟩ := h.kernel
  refine h.move rfl h.module ⟨ts, hts.same rfl hw hw', hkernel⟩ (fun fd' hne => ?_)
    (fun _ _ => rfl) (fun _ _ => rfl) (fun fd' hfd s hs hs' => ?_) (fun fd' hat' hout => ?_) hagrees
  · have hne' : fd' ≠ fd := by
      rintro rfl
      exact hne hat
    exact Function.update_of_ne hne' ..
  · obtain hp | hp := hbusy <;> rw [hp] at hfd
    · exact hs (h.apart s t fd' hs' (hat.trans hfd))
    · cases hfd
  · obtain rfl : fd = fd' := Option.some.inj (hat.symm.trans hat')
    exact (hsync.resolve_left hout).trans setMember_self.symm

theorem Refines.ends {b : Bool} {res : Int} (h : Refines u x) (hbusy : busy (u.pc t) = none)
    (hw : ∀ res, u.pc t ≠ .addWakeup res) :
    Refines ({ u with io := { u.io with ioMembersMutex := b } }.goto t (.out res))
      (x.returns t (x.io, x.kernel, res)) := by
  obtain ⟨ts, hts, hkernel⟩ := h.kernel
  refine h.move rfl h.module ⟨ts, hts.same rfl hw ?_, hkernel⟩ (fun _ _ => rfl) (fun _ _ => rfl)
    (fun s hs => Function.update_of_ne hs ..) ?_ ?_ (Function.update_self ..)
  · exact fun _ hwaking => by cases hwaking
  · exact fun fd hfd => by cases hfd
  · intro fd hat
    rw [hbusy] at hat
    cases hat

/-! What epoll_ctl does, and when the wake-up is written, do not depend on each other. -/

section
variable {io io' : IoModule M} {k : Kernel} {op : EpollOp} {refused : Bool}

theorem modify_wakeup : modifyEpollEvent io (wakeupModule io' k) op fd refused =
    (wakeupModule io' (modifyEpollEvent io k op fd refused).1,
      (modifyEpollEvent io k op fd refused).2) := by
  cases op <;> unfold wakeupModule modifyEpollEvent Kernel.epollCtl <;> split_ifs <;> rfl

theorem modify_wakeups (n : Nat) : modifyEpollEvent io ((wakeupModule io')^[n] k) op fd refused =
    ((wakeupModule io')^[n] (modifyEpollEvent io k op fd refused).1,
      (modifyEpollEvent io k op fd refused).2) := by
  induction n with
  | zero => rfl
  | succ n ih => rw [Function.iterate_succ_apply', modify_wakeup, ih, Function.iterate_succ_apply']

omit [DecidableEq T] in
theorem Refines.modify (h : Refines u x) {n : Nat}
    (hkernel : x.kernel = (wakeupModule u.io)^[n] u.kernel) :
    modifyEpollEvent x.io x.kernel op fd refused =
      ((wakeupModule u.io)^[n] (modifyEpollEvent u.io u.kernel op fd refused).1,
        (modifyEpollEvent u.io u.kernel op fd refused).2) := by
  have hio : modifyEpollEvent x.io = modifyEpollEvent u.io := by
    rw [h.module]
    rfl
  rw [hio, hkernel, modify_wakeups]

end

/-- The step of epoll_ctl, with which the call takes effect above. -/
theorem Refines.takes (h : Refines u x) (p : Pc M) (m : Option M) (k k' : Kernel) (res : Int)
    (hat : busy (u.pc t) = some fd) (hbusy : busy p = some fd ∨ busy p = none)
    (hsync : between p = some fd ∨ u.io.ioMembers fd = m)
    (hkernel : ∃ ts, Waking ({ u with kernel := k }.goto t p) ts ∧
      k' = (wakeupModule u.io)^[ts.length] k)
    (hagrees : Agrees ({ u with kernel := k }.goto t p)
      (x.returns t ({ x.io with ioMembers := Function.update x.io.ioMembers fd m }, k', res)) t p) :
    Refines ({ u with kernel := k }.goto t p)
      (x.returns t ({ x.io with ioMembers := Function.update x.io.ioMembers fd m }, k', res)) := by
  refine h.move rfl ?_ hkernel (fun _ _ => rfl) (fun fd' hne => ?_)
    (fun s hs => Function.update_of_ne hs ..) (fun fd' hfd s hs hs' => ?_) (fun fd' hat' hout => ?_)
    hagrees
  · exact congrArg (fun io => { io with ioMembers := Function.update x.io.ioMembers fd m }) h.module
  · have hne' : fd' ≠ fd := by
      rintro rfl
      exact hne hat
    exact Function.update_of_ne hne' ..
  · obtain hp | hp := hbusy <;> rw [hp] at hfd
    · exact hs (h.apart s t fd' hs' (hat.trans hfd))
    · cases hfd
  · obtain rfl : fd = fd' := Option.some.inj (hat.symm.trans hat')
    exact (Function.update_self ..).trans (hsync.resolve_left hout).symm

omit [DecidableEq T] in
theorem Refines.mutex (h : Refines u x) : x.io.ioMembersMutex = false := by
  rw [h.module]

theorem waking_cons {ts : List T} {k : Kernel} {res : Int} (h : Waking u ts)
    (ht : ∀ res, u.pc t ≠ .addWakeup res) :
    Waking ({ u with kernel := k }.goto t (.addWakeup res)) (t :: ts) := by
  refine ⟨List.nodup_cons.mpr ⟨fun hmem => ?_, h.1⟩, fun s => ?_⟩
  · obtain ⟨res', hres⟩ := (h.2 t).mp hmem
    exact ht res' hres
  · by_cases hs : s = t
    · simp [hs, Sys.goto]
    · simpa [hs, Sys.goto] using h.2 s

theorem waking_erase {ts : List T} {k : Kernel} {res : Int} (h : Waking u ts) :
    Waking ({ u with kernel := k }.goto t (.out res)) (ts.erase t) := by
  refine ⟨h.1.erase t, fun s => ?_⟩
  rw [h.1.mem_erase_iff]
  by_cases hs : s = t
  · simp [hs, Sys.goto]
  · simpa [hs, Sys.goto] using h.2 s

omit [DecidableEq T] in
theorem Refines.wakeup (h : Refines u x) : wakeupModule x.io = wakeupModule u.io := by
  rw [h.module]
  rfl

theorem addIoMember_free {io : IoModule M} {k : Kernel} {member : M} {refused : Bool}
    (hfd : 0 ≤ fd) (hmutex : io.ioMembersMutex = false) (hfree : io.ioMembers fd = none) :
    addIoMember io k (some (member, fd)) refused =
      some ({ io with ioMembers := Function.update io.ioMembers fd (some member) },
        wakeupModule io (modifyEpollEvent io k .add fd refused).1,
        (modifyEpollEvent io k .add fd refused).2) := by
  simp only [addIoMember, not_lt.mpr hfd, hmutex, hfree, Bool.false_eq_true, if_false]
  rfl

/-! Each epoll_ctl is the call above. -/

section
variable {refused : Bool}

theorem add_takes (h : Refines u x) (ht : u.pc t = .addEpoll fd)
    (hstep : next u t refused = some v) :
    ∃ y, run call x (atomic ⟨u, .next t refused, v⟩) = some y ∧ Refines v y := by
  obtain ⟨ts, hts, hkernel⟩ := h.kernel
  have hagrees := h.agrees t
  rw [ht] at hagrees
  obtain ⟨hfd, hfree, hheld⟩ := hagrees
  obtain ⟨member, hmember⟩ := Option.ne_none_iff_exists'.mp hheld
  have hat : busy (u.pc t) = some fd := by simp [ht, busy]
  have hnot (res : Int) : u.pc t ≠ .addWakeup res := by simp [ht]
  have hcall : addIoMember x.io x.kernel (some (member, fd)) refused = _ :=
    addIoMember_free hfd h.mutex hfree
  rw [h.wakeup, h.modify hkernel, ← Function.iterate_succ_apply' (wakeupModule u.io)] at hcall
  simp only [next, ht, Option.some.injEq] at hstep
  subst hstep
  refine ⟨_, ?_, h.takes (.addWakeup (modifyEpollEvent u.io u.kernel .add fd refused).2)
    (some member) (modifyEpollEvent u.io u.kernel .add fd refused).1 _ _ hat (.inr rfl)
    (.inr hmember) ⟨t :: ts, waking_cons hts hnot, rfl⟩ (returns_res _)⟩
  simp only [atomic, ht, hmember, Option.map_some, Option.toList_some, run_single, call, hcall]
  rfl

theorem remove_takes (h : Refines u x) (ht : u.pc t = .removeEpoll fd)
    (hstep : next u t refused = some v) :
    ∃ y, run call x (atomic ⟨u, .next t refused, v⟩) = some y ∧ Refines v y := by
  obtain ⟨ts, hts, hkernel⟩ := h.kernel
  have hagrees := h.agrees t
  rw [ht] at hagrees
  obtain ⟨herased, hheld⟩ := hagrees
  obtain ⟨member, hmember⟩ := Option.ne_none_iff_exists'.mp hheld
  have hat : busy (u.pc t) = some fd := by simp [ht, busy]
  have hnot (res : Int) : u.pc t ≠ .addWakeup res := by simp [ht]
  have hcall : removeIoMember x.io x.kernel (some fd) refused = _ :=
    IoTable.removeIoMember_known refused h.mutex hmember
  rw [h.modify hkernel] at hcall
  simp only [next, ht, Option.some.injEq] at hstep
  subst hstep
  refine ⟨_, ?_, h.takes (.out (modifyEpollEvent u.io u.kernel .del fd refused).2) none
    (modifyEpollEvent u.io u.kernel .del fd refused).1 _ _ hat (.inr rfl) (.inr herased)
    ⟨ts, hts.same rfl hnot (by simp), rfl⟩ (returns_res _)⟩
  simp only [atomic, ht, run_single, call, hcall]
  rfl

theorem drop_takes (h : Refines u x) (ht : u.pc t = .dropEpoll fd)
    (hstep : next u t refused = some v) :
    ∃ y, run call x (atomic ⟨u, .next t refused, v⟩) = some y ∧ Refines v y := by
  obtain ⟨ts, hts, hkernel⟩ := h.kernel
  have hat : busy (u.pc t) = some fd := by simp [ht, busy]
  have hnot (res : Int) : u.pc t ≠ .addWakeup res := by simp [ht]
  have hdrop : dropMember x.io x.kernel fd refused =
      ({ x.io with ioMembers := Function.update x.io.ioMembers fd none },
        (wakeupModule u.io)^[ts.length] (modifyEpollEvent u.io u.kernel .del fd refused).1, 0) := by
    rw [dropMember, h.modify hkernel]
  simp only [next, ht, Option.some.injEq] at hstep
  subst hstep
  refine ⟨_, ?_, h.takes (.dropLock fd) none
    (modifyEpollEvent u.io u.kernel .del fd refused).1 _ _ hat (.inl rfl) (.inl rfl)
    ⟨ts, hts.same rfl hnot (by simp), rfl⟩ ⟨Function.update_self .., returns_res _⟩⟩
  simp only [atomic, ht, run_single, call, h.mutex, hdrop, Bool.false_eq_true, if_false]

/-- The wake-up is written that the call above has written long since. -/
theorem wakeup_refines {res : Int} (h : Refines u x) (ht : u.pc t = .addWakeup res) :
    Refines ({ u with kernel := wakeupModule u.io u.kernel }.goto t (.out res)) x := by
  obtain ⟨ts, hts, hkernel⟩ := h.kernel
  have hmem : t ∈ ts := (hts.2 t).mpr ⟨res, ht⟩
  have hagrees := h.agrees t
  rw [ht] at hagrees
  refine h.move rfl h.module ⟨ts.erase t, waking_erase hts, ?_⟩ (fun _ _ => rfl) (fun _ _ => rfl)
    (fun _ _ => rfl) (fun fd hfd => by cases hfd) (fun fd hat => ?_) hagrees
  · rw [hkernel, ← List.length_erase_add_one hmem, Function.iterate_succ_apply]
    rfl
  · rw [ht] at hat
    cases hat

theorem lock_eq (h : u.lock t p = some v) :
    { u with io := { u.io with ioMembersMutex := true } }.goto t p = v := by
  cases hmutex : u.io.ioMembersMutex with
  | false => simpa [Sys.lock, hmutex] using h
  | true => simp [Sys.lock, hmutex] at h

theorem unseen {m : Move (Sys T M) (Act T M)} (hm : atomic m = [])
    (h : Refines v x) : ∃ y, run call x (atomic m) = some y ∧ Refines v y := by
  rw [hm]
  exact ⟨x, rfl, h⟩

theorem next_refines (h : Refines u x) (hproper : Proper u (.next t refused))
    (hstep : next u t refused = some v) :
    ∃ y, run call x (atomic ⟨u, .next t refused, v⟩) = some y ∧ Refines v y := by
  have hagrees := h.agrees t
  cases ht : u.pc t with
  | out res => simp [next, ht] at hstep
  | addEpoll fd => exact add_takes h ht hstep
  | removeEpoll fd => exact remove_takes h ht hstep
  | dropEpoll fd => exact drop_takes h ht hstep
  | addLock m fd | removeLock fd | lookupLock fd | dropLock fd =>
    simp only [next, ht] at hstep
    rw [ht] at hagrees
    refine unseen (by simp [atomic, ht]) (lock_eq hstep ▸ h.still ?_ ?_ ?_ ?_ hagrees) <;>
      simp [ht, busy, between]
  | addFind m fd =>
    have hfree : u.io.ioMembers fd = none := by simpa [Proper, ht] using hproper
    simp only [next, ht, hfree, Option.some.injEq] at hstep
    rw [ht] at hagrees
    subst hstep
    refine unseen (by simp [atomic, ht]) (h.still ?_ ?_ ?_ ?_ ⟨hagrees, hfree⟩) <;>
      simp [ht, busy, between]
  | removeFind fd =>
    have hheld : u.io.ioMembers fd ≠ none := by simpa [Proper, ht] using hproper
    obtain ⟨m, hm⟩ := Option.ne_none_iff_exists'.mp hheld
    simp only [next, ht, hm, Option.some.injEq] at hstep
    subst hstep
    refine unseen (by simp [atomic, ht]) (h.still ?_ ?_ ?_ ?_ hheld) <;> simp [ht, busy, between]
  | addStore m fd =>
    simp only [next, ht, Option.some.injEq] at hstep
    rw [ht] at hagrees
    have hat : busy (u.pc t) = some fd := by simp [ht, busy]
    have hfree : x.io.ioMembers fd = none :=
      (h.own hat (by simp [ht, between])).trans hagrees.2
    have hstored : (u.setMember fd (some m)).io.ioMembers fd ≠ none :=
      setMember_self.trans_ne (Option.some_ne_none m)
    subst hstep
    exact unseen (by simp [atomic, ht]) (h.writes hat (.inl rfl) (.inl rfl) (by simp [ht])
      (by simp) ⟨hagrees.1, hfree, hstored⟩)
  | removeErase fd =>
    simp only [next, ht, Option.some.injEq] at hstep
    rw [ht] at hagrees
    have hat : busy (u.pc t) = some fd := by simp [ht, busy]
    have hheld : x.io.ioMembers fd ≠ none :=
      (h.own hat (by simp [ht, between])).trans_ne hagrees
    subst hstep
    exact unseen (by simp [atomic, ht]) (h.writes hat (.inl rfl) (.inl rfl) (by simp [ht])
      (by simp) ⟨setMember_self, hheld⟩)
  | dropErase fd =>
    simp only [next, ht, Option.some.injEq] at hstep
    rw [ht] at hagrees
    have hat : busy (u.pc t) = some fd := by simp [ht, busy]
    subst hstep
    exact unseen (by simp [atomic, ht]) (h.writes hat (.inr rfl) (.inr hagrees.1) (by simp [ht])
      (by simp) hagrees.2)
  | lookupFind fd =>
    simp only [next, ht, Option.some.injEq] at hstep
    subst hstep
    refine unseen (by simp [atomic, ht]) (h.still ?_ ?_ ?_ ?_ trivial) <;> simp [ht, busy, between]
  | lookupUnlock =>
    simp only [next, ht, Option.some.injEq] at hstep
    subst hstep
    refine ⟨_, ?_, h.ends (by simp [ht, busy]) (by simp [ht])⟩
    simp [atomic, ht, run_single, call, h.mutex]
  | addUnlock fd | removeUnlock fd | dropUnlock =>
    simp only [next, ht, Option.some.injEq] at hstep
    rw [ht] at hagrees
    subst hstep
    refine unseen (by simp [atomic, ht]) (h.still ?_ ?_ ?_ ?_ hagrees) <;>
      simp [ht, busy, between]
  | addWakeup res =>
    simp only [next, ht, Option.some.injEq] at hstep
    subst hstep
    exact unseen (by simp [atomic, ht]) (wakeup_refines h ht)

end

theorem enter_eq (h : u.enter t p = some v) : (∃ res, u.pc t = .out res) ∧ u.goto t p = v := by
  cases ht : u.pc t with
  | out res => exact ⟨⟨res, rfl⟩, by simpa [Sys.enter, ht] using h⟩
  | _ => simp [Sys.enter, ht] at h

theorem refused_refines (h : Refines u x) (hstep : u.enter t (.out (-1)) = some v) :
    Refines v (x.returns t (x.io, x.kernel, -1)) := by
  obtain ⟨⟨res, ht⟩, rfl⟩ := enter_eq hstep
  exact h.ends (by simp [ht, busy]) (by simp [ht])

theorem begun_refines (h : Refines u x) (hstep : u.enter t p = some v)
    (hapart : ∀ fd, busy p = some fd → ∀ s, busy (u.pc s) ≠ some fd)
    (hw : ∀ res, p ≠ .addWakeup res) (hagrees : Agrees u x t p) : Refines v x := by
  obtain ⟨⟨res, ht⟩, rfl⟩ := enter_eq hstep
  exact h.begins ht hapart hw hagrees

/-- Each step between two threads' calls at different descriptors is none above, or a whole call. -/
theorem step_refines : Simulates (step (T := T) (M := M)) call (fun u a => Proper u a ∧ Apart u a)
    Refines atomic := by
  rintro u a v x h ⟨hproper, hapart⟩ hstep
  have hcalled {fd : Int} (hat : ∀ t, busy (u.pc t) ≠ some fd) (fd' : Int)
      (hfd : some fd = some fd') (s : T) : busy (u.pc s) ≠ some fd' := hfd ▸ hat s
  cases a with
  | next t refused => exact next_refines h hproper hstep
  | callAdd t ioMember =>
    cases ioMember with
    | none => exact ⟨_, rfl, refused_refines h hstep⟩
    | some member =>
      obtain ⟨m, fd⟩ := member
      by_cases hfd : fd < 0
      · simp only [step, if_pos hfd] at hstep
        refine ⟨_, ?_, refused_refines h hstep⟩
        simp [atomic, hfd, run_single, call, addIoMember]
      · simp only [step, if_neg hfd] at hstep
        exact unseen (by simp [atomic, hfd]) (begun_refines h hstep (hcalled hapart) (by simp)
          (not_lt.mp hfd))
  | callRemove t ioMember =>
    cases ioMember with
    | none => exact ⟨_, rfl, refused_refines h hstep⟩
    | some fd => exact unseen rfl (begun_refines h hstep (hcalled hapart) (by simp) trivial)
  | callLookup t fd =>
    exact unseen rfl (begun_refines h hstep (fun fd' hfd => by cases hfd) (by simp) trivial)
  | callDrop t fd => exact unseen rfl (begun_refines h hstep (hcalled hapart) (by simp) trivial)

/-- What the last call of a thread returned that is in none. -/
def result : Pc M → Int
  | .out res => res
  | _ => 0

omit [DecidableEq T] in
theorem refines_idle (h : Idle u) : Refines u ⟨u.io, u.kernel, fun t => result (u.pc t)⟩ where
  module := by
    rw [← h.free]
  kernel := ⟨[], ⟨List.nodup_nil, fun t => by
    obtain ⟨res, hres⟩ := h.out t
    simp [hres]⟩, rfl⟩
  table _ _ := rfl
  apart t _ fd ht := by
    obtain ⟨res, hres⟩ := h.out t
    rw [hres] at ht
    cases ht
  agrees t := by
    obtain ⟨res, hres⟩ := h.out t
    simp [hres, Agrees, result]

omit [DecidableEq T] in
theorem Refines.idle (h : Refines u x) (hu : Idle u) :
    x = ⟨u.io, u.kernel, fun t => result (u.pc t)⟩ := by
  have hnone (t : T) (fd : Int) : between (u.pc t) ≠ some fd := by
    obtain ⟨res, hres⟩ := hu.out t
    simp [hres, between]
  obtain ⟨ts, hts, hkernel⟩ := h.kernel
  obtain rfl : ts = [] := by
    refine List.eq_nil_iff_forall_not_mem.mpr fun t ht => ?_
    obtain ⟨res, hres⟩ := hu.out t
    obtain ⟨res', hwaking⟩ := (hts.2 t).mp ht
    cases hres.symm.trans hwaking
  have htable : x.io.ioMembers = u.io.ioMembers := funext fun fd => h.table fd fun t => hnone t fd
  have hio : x.io = u.io := by
    rw [h.module, htable, ← hu.free]
  have hres : x.res = fun t => result (u.pc t) := by
    funext t
    obtain ⟨res, hout⟩ := hu.out t
    have hagrees := h.agrees t
    rw [hout] at hagrees ⊢
    exact hagrees
  obtain ⟨io, kernel, res⟩ := x
  cases hio
  cases hkernel
  cases hres
  rfl

/-! What is called above is what the threads call. -/

def asked : Act T M → List (T × Call M)
  | .callAdd t ioMember => [(t, .add ioMember false)]
  | .callRemove t ioMember => [(t, .remove ioMember false)]
  | .callLookup t _ => [(t, .lookup)]
  | .callDrop t fd => [(t, .drop fd false)]
  | .next _ _ => []

/-- A call without the answer of the kernel. -/
def plain : Call M → Call M
  | .add ioMember _ => .add ioMember false
  | .remove ioMember _ => .remove ioMember false
  | .lookup => .lookup
  | .drop fd _ => .drop fd false

def callsOf (t : T) (calls : List (T × Call M)) : List (Call M) :=
  calls.filterMap fun c => if c.1 = t then some (plain c.2) else none

/-- The call of a thread that has not taken effect yet. -/
def owed (table : Int → Option M) : Pc M → List (Call M)
  | .addLock m fd | .addFind m fd | .addStore m fd => [.add (some (m, fd)) false]
  | .addUnlock fd | .addEpoll fd => [.add ((table fd).map fun m => (m, fd)) false]
  | .removeLock fd | .removeFind fd | .removeErase fd | .removeUnlock fd | .removeEpoll fd =>
    [.remove (some fd) false]
  | .lookupLock _ | .lookupFind _ | .lookupUnlock => [.lookup]
  | .dropEpoll fd => [.drop fd false]
  | _ => []

def thread : Act T M → T
  | .callAdd t _ | .callRemove t _ | .callLookup t _ | .callDrop t _ | .next t _ => t

theorem callsOf_append (t : T) (as bs : List (T × Call M)) :
    callsOf t (as ++ bs) = callsOf t as ++ callsOf t bs := List.filterMap_append ..

/-- A step of thread `t`, which changes the table at its descriptor only. -/
def Local (u v : Sys T M) (t : T) : Prop :=
  (∀ s, s ≠ t → v.pc s = u.pc s) ∧
    ∀ fd, busy (u.pc t) ≠ some fd → v.io.ioMembers fd = u.io.ioMembers fd

theorem local_goto (u : Sys T M) (io : IoModule M) (k : Kernel) (p : Pc M)
    (htable : ∀ fd, busy (u.pc t) ≠ some fd → io.ioMembers fd = u.io.ioMembers fd) :
    Local u (Sys.goto ⟨io, k, u.pc⟩ t p) t :=
  ⟨fun _ hs => Function.update_of_ne hs .., htable⟩

theorem setMember_local (m : Option M) (hat : busy (u.pc t) = some fd) :
    Local u ((u.setMember fd m).goto t p) t := by
  refine local_goto u _ _ p fun fd' hne => ?_
  have hne' : fd' ≠ fd := by
    rintro rfl
    exact hne hat
  exact Function.update_of_ne hne' ..

theorem next_local {refused : Bool} (h : next u t refused = some v) : Local u v t := by
  have hsame (io : IoModule M) (k : Kernel) (p : Pc M) (hio : io.ioMembers = u.io.ioMembers) :
      Local u (Sys.goto ⟨io, k, u.pc⟩ t p) t := local_goto u io k p fun _ _ => by rw [hio]
  cases ht : u.pc t with
  | out res => simp [next, ht] at h
  | addLock m fd | removeLock fd | lookupLock fd | dropLock fd =>
    simp only [next, ht] at h
    obtain rfl := lock_eq h
    exact hsame _ _ _ rfl
  | addFind m fd =>
    cases hm : u.io.ioMembers fd <;> simp only [next, ht, hm, Option.some.injEq] at h <;> subst h
    · exact hsame _ _ _ rfl
    · exact hsame _ _ _ rfl
  | removeFind fd =>
    cases hm : u.io.ioMembers fd <;> simp only [next, ht, hm, Option.some.injEq] at h <;> subst h
    · exact hsame _ _ _ rfl
    · exact hsame _ _ _ rfl
  | addStore m fd | removeErase fd | dropErase fd =>
    simp only [next, ht, Option.some.injEq] at h
    subst h
    exact setMember_local _ (by simp [ht, busy])
  | _ =>
    simp only [next, ht, Option.some.injEq] at h
    subst h
    exact hsame _ _ _ rfl

theorem step_local {a : Act T M} (h : step u a = some v) : Local u v (thread a) := by
  have hentered {p : Pc M} {t : T} (h : u.enter t p = some v) : Local u v t := by
    obtain ⟨-, rfl⟩ := enter_eq h
    exact local_goto u u.io u.kernel p fun _ _ => rfl
  cases a with
  | callAdd t ioMember => cases ioMember <;> exact hentered h
  | callRemove t ioMember => cases ioMember <;> exact hentered h
  | callLookup t fd => exact hentered h
  | callDrop t fd => exact hentered h
  | next t refused => exact next_local h

omit [DecidableEq T] in
theorem owed_frame {table table' : Int → Option M}
    (h : ∀ fd, busy p = some fd → table' fd = table fd) : owed table' p = owed table p := by
  cases p with
  | addUnlock fd | addEpoll fd => simp [owed, h fd rfl]
  | _ => rfl

theorem callsOf_other {calls : List (T × Call M)} (h : ∀ c ∈ calls, c.1 ≠ t) :
    callsOf t calls = [] :=
  List.filterMap_eq_nil_iff.mpr fun c hc => if_neg (h c hc)

omit [DecidableEq T] in
theorem asked_thread (a : Act T M) : ∀ c ∈ asked a, c.1 = thread a := by
  cases a <;> simp [asked, thread]

omit [DecidableEq T] in
theorem atomic_thread (m : Move (Sys T M) (Act T M)) : ∀ c ∈ atomic m, c.1 = thread m.act := by
  obtain ⟨u, a, v⟩ := m
  cases a with
  | callAdd t ioMember =>
    obtain - | ⟨m, fd⟩ := ioMember
    · simp [atomic, thread]
    · by_cases hfd : fd < 0 <;> simp [atomic, thread, hfd]
  | callRemove t ioMember => cases ioMember <;> simp [atomic, thread]
  | callLookup t fd | callDrop t fd => simp [atomic]
  | next t refused => cases ht : u.pc t <;> simp [atomic, thread, ht]

/-- A call of the thread that steps is asked for with its first step, and owed until it is made. -/
theorem next_owed {refused : Bool} (h : Refines u x) (hproper : Proper u (.next t refused))
    (hstep : next u t refused = some v) :
    callsOf t (atomic ⟨u, .next t refused, v⟩) ++ owed v.io.ioMembers (v.pc t) =
      owed u.io.ioMembers (u.pc t) := by
  cases ht : u.pc t with
  | out res => simp [next, ht] at hstep
  | addLock m fd | removeLock fd | lookupLock fd | dropLock fd =>
    simp only [next, ht] at hstep
    obtain rfl := lock_eq hstep
    simp [atomic, ht, owed, Sys.goto, callsOf]
  | addFind m fd =>
    have hfree : u.io.ioMembers fd = none := by simpa [Proper, ht] using hproper
    simp only [next, ht, hfree, Option.some.injEq] at hstep
    subst hstep
    simp [atomic, ht, owed, Sys.goto, callsOf]
  | removeFind fd =>
    have hheld : u.io.ioMembers fd ≠ none := by simpa [Proper, ht] using hproper
    obtain ⟨m, hm⟩ := Option.ne_none_iff_exists'.mp hheld
    simp only [next, ht, hm, Option.some.injEq] at hstep
    subst hstep
    simp [atomic, ht, owed, Sys.goto, callsOf]
  | addEpoll fd =>
    have hagrees := h.agrees t
    rw [ht] at hagrees
    obtain ⟨m, hm⟩ := Option.ne_none_iff_exists'.mp hagrees.2.2
    simp only [next, ht, Option.some.injEq] at hstep
    subst hstep
    simp [atomic, ht, hm, owed, Sys.goto, callsOf, plain]
  | _ =>
    simp only [next, ht, Option.some.injEq] at hstep
    subst hstep
    simp [atomic, ht, owed, Sys.goto, Sys.setMember, Sys.unlock, callsOf, plain]

/-- A thread that comes in owes the call it has asked for, or has made it at once. -/
theorem enter_owed {a : Act T M} (hstep : u.enter t p = some v)
    (hcall : callsOf t (atomic ⟨u, a, v⟩) ++ owed u.io.ioMembers p = callsOf t (asked a)) :
    callsOf t (atomic ⟨u, a, v⟩) ++ owed v.io.ioMembers (v.pc t) =
      owed u.io.ioMembers (u.pc t) ++ callsOf t (asked a) := by
  obtain ⟨⟨res, hout⟩, rfl⟩ := enter_eq hstep
  have hnone : owed u.io.ioMembers (u.pc t) = [] := by
    rw [hout]
    rfl
  have hpost : (u.goto t p).pc t = p := Function.update_self ..
  rw [hnone, List.nil_append, hpost]
  exact hcall

theorem owed_step {a : Act T M} (h : Refines u x) (hproper : Proper u a)
    (hstep : step u a = some v) (t : T) :
    callsOf t (atomic ⟨u, a, v⟩) ++ owed v.io.ioMembers (v.pc t) =
      owed u.io.ioMembers (u.pc t) ++ callsOf t (asked a) := by
  obtain ⟨hpc, htable⟩ := step_local hstep
  by_cases ht : t = thread a
  · subst ht
    cases a with
    | next t refused =>
      have hnext := next_owed h hproper hstep
      exact hnext.trans (List.append_nil _).symm
    | callAdd t ioMember =>
      obtain - | ⟨m, fd⟩ := ioMember
      · exact enter_owed hstep (by simp [atomic, asked, callsOf, owed, plain, thread])
      · refine enter_owed hstep ?_
        by_cases hfd : fd < 0 <;> simp [atomic, asked, callsOf, owed, plain, thread, hfd]
    | callRemove t ioMember =>
      cases ioMember with
      | none => exact enter_owed hstep (by simp [atomic, asked, callsOf, owed, plain, thread])
      | some fd => exact enter_owed hstep (by simp [atomic, asked, callsOf, owed, plain, thread])
    | callLookup t fd | callDrop t fd =>
      exact enter_owed hstep (by simp [atomic, asked, callsOf, owed, plain, thread])
  · rw [callsOf_other fun c hc => (atomic_thread _ c hc).trans_ne (Ne.symm ht),
      callsOf_other fun c hc => (asked_thread a c hc).trans_ne (Ne.symm ht), List.nil_append,
      List.append_nil, hpc t ht]
    refine owed_frame fun fd hfd => htable fd fun hat => ht ?_
    exact h.apart t (thread a) fd hfd hat

variable {ms : List (Move (Sys T M) (Act T M))}

/-- The calls of a run as calls of one step, each where it takes effect: every thread's own in
their order, of which the last may be still to come; with the same results, and with the same table,
epoll and pipe whenever no thread is in a call. -/
structure OneByOne (u : Sys T M) (ms : List (Move (Sys T M) (Act T M))) (v : Sys T M)
    (x : Module T M) : Prop where
  made : run call ⟨u.io, u.kernel, fun t => result (u.pc t)⟩ (ms.flatMap atomic) = some x
  calls : ∀ t, callsOf t (ms.flatMap atomic) ++ owed v.io.ioMembers (v.pc t) =
    callsOf t (ms.flatMap fun m => asked m.act)
  results : ∀ t res, v.pc t = .out res → x.res t = res
  whole : (∀ t, ∃ res, v.pc t = .out res) → x = ⟨v.io, v.kernel, fun t => result (v.pc t)⟩

theorem path_owed (hu : Idle u) (h : Path step u ms v)
    (hms : ∀ m ∈ ms, Proper m.pre m.act ∧ Apart m.pre m.act) (t : T) :
    callsOf t (ms.flatMap atomic) ++ owed v.io.ioMembers (v.pc t) =
      callsOf t (ms.flatMap fun m => asked m.act) := by
  induction h with
  | nil =>
    obtain ⟨res, hres⟩ := hu.out t
    simp [callsOf, hres, owed]
  | @snoc ms v w a hp hstep ih =>
    have hpre := fun m hm => hms m (List.mem_append_left _ hm)
    obtain ⟨x, -, hx⟩ := step_refines.path hp (refines_idle hu) hpre
    have hlast := owed_step hx (hms ⟨v, a, w⟩ (by simp)).1 hstep t
    rw [List.flatMap_append, List.flatMap_append, List.flatMap_singleton, List.flatMap_singleton,
      callsOf_append, callsOf_append, List.append_assoc, hlast, ← List.append_assoc, ih hpre]

theorem path_released (hu : Idle u) (h : Path step u ms v)
    (hms : ∀ m ∈ ms, Proper m.pre m.act ∧ Apart m.pre m.act) : Released v := by
  have hkept : Exclusive v ∧ Released v :=
    h.guarded (I := fun w => Exclusive w ∧ Released w) (G := fun w a => Proper w a ∧ Apart w a)
      ⟨hu.exclusive, hu.released⟩
      (fun _ _ _ hi hg hs => ⟨exclusive_step hi.1 hs, (released_step_iff hi.1 hi.2 hs).mpr hg.1⟩)
      hms
  exact hkept.2

/-- Any number of threads call addIoMember and removeIoMember and dispatch events at the same time,
and no call meets one of the early exits. Where no two of them are at one descriptor, everything is
as if each call had been made at one moment between its first step and its return. What a look-up
finds in the meantime is left open. -/
theorem calls_atomic (hu : Idle u) (h : Path step u ms v)
    (hms : ∀ m ∈ ms, Proper m.pre m.act ∧ Apart m.pre m.act) : ∃ x, OneByOne u ms v x := by
  obtain ⟨x, hx, hrefines⟩ := step_refines.path h (refines_idle hu) hms
  refine ⟨x, hx, path_owed hu h hms, fun t res hout => ?_, fun hout => ?_⟩
  · have hagrees := hrefines.agrees t
    rw [hout] at hagrees
    exact hagrees
  · refine hrefines.idle ⟨?_, hout⟩
    by_contra hlocked
    obtain ⟨t, ht⟩ := path_released hu h hms (Bool.not_eq_false _ ▸ hlocked)
    obtain ⟨res, hres⟩ := hout t
    rw [hres] at ht
    cases ht

/-- At one descriptor the changes can cross: a removal that finds the member in the table before
epoll watches it fails, and leaves behind a descriptor that epoll watches and the table has not. -/
theorem add_crossed {s : T} {res : Int} (ht : u.pc t = .addEpoll fd) (hs : u.pc s = .out res)
    (hfree : u.io.ioMembersMutex = false) (hheld : u.io.ioMembers fd ≠ none)
    (hreaches : IoTable.Reaches u.io u.kernel fd false) (hnew : u.kernel.interest fd = false) :
    ∃ v, run step u (.callRemove s (some fd) :: List.replicate 5 (.next s false) ++
        [.next t false]) = some v ∧ v.pc s = .out (-1) ∧ v.pc t = .addWakeup 0 ∧
      v.io.ioMembers fd = none ∧ v.kernel.interest fd = true := by
  obtain ⟨m, hm⟩ := Option.ne_none_iff_exists'.mp hheld
  have hne : t ≠ s := by
    rintro rfl
    cases ht.symm.trans hs
  have hdel (io : IoModule M) : modifyEpollEvent io u.kernel .del fd false = (u.kernel, -1) := by
    unfold modifyEpollEvent Kernel.epollCtl
    split_ifs <;> rfl
  have hadd (table : Int → Option M) : modifyEpollEvent
      { u.io with ioMembersMutex := false, ioMembers := table } u.kernel .add fd false =
        ({ u.kernel with interest := Function.update u.kernel.interest fd true }, 0) :=
    (IoTable.modifyEpollEvent_reaches hreaches).1 hnew
  simp [run, step, next, Sys.enter, Sys.lock, Sys.unlock, Sys.goto, Sys.setMember, hs, ht, hm,
    hfree, hne, hne.symm, hdel, hadd, List.replicate]

/-! Two threads and a running module. -/

def twoThreads : Sys Bool Unit where
  io := { state := .started, epollFd := 3, wakeUpPipeFd := (4, 5) }
  kernel := { isOpen := fun fd => decide (3 ≤ fd ∧ fd ≤ 8) }
  pc _ := .out 0

theorem twoThreads_idle : Idle twoThreads := ⟨rfl, fun _ => ⟨0, rfl⟩⟩

instance (u : Sys Bool Unit) (a : Act Bool Unit) : Decidable (Proper u a ∧ Apart u a) := by
  have hproper : Decidable (Proper u a) := by
    cases a with
    | next t refused =>
      unfold Proper
      dsimp only
      split <;> infer_instance
    | _ => exact instDecidableTrue
  have hapart : Decidable (Apart u a) := by
    unfold Apart
    split <;> infer_instance
  exact instDecidableAnd

/-- Both members are in the table before epoll watches one of them. -/
theorem overlapping_run : (run (guarded step fun u a => Proper u a ∧ Apart u a) twoThreads
    ([.callAdd true (some ((), 7)), .callAdd false (some ((), 8))] ++
      List.replicate 4 (.next true false) ++ List.replicate 5 (.next false false) ++
      [.next true false, .next true false, .next false false, .callLookup true 8,
        .callRemove false (some 7), .next true false, .next true false, .next true false] ++
      List.replicate 5 (.next false false))).any (fun v => decide
    (busy (v.pc true) = none ∧ busy (v.pc false) = none ∧ v.kernel.interest 8 = true)) = true := by
  decide +kernel

theorem calls_atomic_two : ∃ ms v x, Path step twoThreads ms v ∧ v.kernel.interest 8 = true ∧
    OneByOne twoThreads ms v x := by
  obtain ⟨v, hv, hmade⟩ := (Option.any_eq_true _ _).mp overlapping_run
  obtain ⟨ms, hp, hguard⟩ := (meets_of_run hv).path
  obtain ⟨x, hx⟩ := calls_atomic twoThreads_idle hp hguard
  exact ⟨ms, v, x, hp, (of_decide_eq_true hmade).2.2, hx⟩

end DericRpc.AtomicCalls
