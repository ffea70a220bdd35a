import DericRpc.IoModule
import DericRpc.Lib.Lts
import Mathlib.Tactic.SplitIfs

/-! Who holds m_ioMembersMutex: addIoMember, removeIoMember and the lookups of the dispatch
loop cut into the steps between which other threads run. -/
namespace DericRpc.MembersLock
open Io Lts

/-- The next thing a thread does inside IoModule; `out` when it runs no code of it, with
the result of its last call. -/
inductive Pc (M : Type) where
  | out (res : Int)
  | addLock (m : M) (fd : Int)
  | addFind (m : M) (fd : Int)
  | addStore (m : M) (fd : Int)
  | addUnlock (fd : Int)
  | addEpoll (fd : Int)
  | addWakeup (res : Int)
  | removeLock (fd : Int)
  | removeFind (fd : Int)
  | removeErase (fd : Int)
  | removeUnlock (fd : Int)
  | removeEpoll (fd : Int)
  | lookupLock (fd : Int)
  | lookupFind (fd : Int)
  | lookupUnlock
  | dropEpoll (fd : Int)
  | dropLock (fd : Int)
  | dropErase (fd : Int)
  | dropUnlock

/-- Between taking the mutex and giving it back. -/
def Pc.holds {M : Type} : Pc M → Bool
  | .addFind _ _ | .addStore _ _ | .addUnlock _ | .removeFind _ | .removeErase _
  | .removeUnlock _ | .lookupFind _ | .lookupUnlock | .dropErase _ | .dropUnlock => true
  | _ => false

structure Sys (T M : Type) where
  io : IoModule M
  kernel : Kernel
  pc : T → Pc M

/-- `lookup` and `drop` are waitThreadFunc's own accesses to the table: the search for the
member of an event, and the removal of a member that asked for it. -/
inductive Act (T M : Type) where
  | callAdd (t : T) (ioMember : Option (M × Int))
  | callRemove (t : T) (ioMember : Option Int)
  | callLookup (t : T) (fd : Int)
  | callDrop (t : T) (fd : Int)
  | next (t : T) (refused : Bool)

variable {T M : Type} [DecidableEq T]

def Sys.goto (u : Sys T M) (t : T) (p : Pc M) : Sys T M :=
  { u with pc := Function.update u.pc t p }

def Sys.lock (u : Sys T M) (t : T) (p : Pc M) : Option (Sys T M) :=
  if u.io.ioMembersMutex = true then none
  else some ({ u with io := { u.io with ioMembersMutex := true } }.goto t p)

def Sys.unlock (u : Sys T M) (t : T) (p : Pc M) : Sys T M :=
  { u with io := { u.io with ioMembersMutex := false } }.goto t p

def Sys.setMember (u : Sys T M) (fd : Int) (m : Option M) : Sys T M :=
  { u with io := { u.io with ioMembers := Function.update u.io.ioMembers fd m } }

/-- A call begins only when the thread runs no other one. -/
def Sys.enter (u : Sys T M) (t : T) (p : Pc M) : Option (Sys T M) :=
  match u.pc t with
  | .out _ => some (u.goto t p)
  | _ => none

def next (u : Sys T M) (t : T) (refused : Bool) : Option (Sys T M) :=
  match u.pc t with
  | .out _ => none
  | .addLock m fd => u.lock t (.addFind m fd)
  | .addFind m fd =>
    match u.io.ioMembers fd with
    | some _ => some (u.goto t (.out 0))
    | none => some (u.goto t (.addStore m fd))
  | .addStore m fd => some ((u.setMember fd (some m)).goto t (.addUnlock fd))
  | .addUnlock fd => some (u.unlock t (.addEpoll fd))
  | .addEpoll fd =>
    let out := modifyEpollEvent u.io u.kernel .add fd refused
    some ({ u with kernel := out.1 }.goto t (.addWakeup out.2))
  | .addWakeup res => some ({ u with kernel := wakeupModule u.io u.kernel }.goto t (.out res))
  | .removeLock fd => u.lock t (.removeFind fd)
  | .removeFind fd =>
    match u.io.ioMembers fd with
    | none => some (u.goto t (.out (-1)))
    | some _ => some (u.goto t (.removeErase fd))
  | .removeErase fd => some ((u.setMember fd none).goto t (.removeUnlock fd))
  | .removeUnlock fd => some (u.unlock t (.removeEpoll fd))
  | .removeEpoll fd =>
    let out := modifyEpollEvent u.io u.kernel .del fd refused
    some ({ u with kernel := out.1 }.goto t (.out out.2))
  | .lookupLock fd => u.lock t (.lookupFind fd)
  -- the lock guard lets go on both branches of the search
  | .lookupFind _ => some (u.goto t .lookupUnlock)
  | .lookupUnlock => some (u.unlock t (.out 0))
  | .dropEpoll fd =>
    let out := modifyEpollEvent u.io u.kernel .del fd refused
    some ({ u with kernel := out.1 }.goto t (.dropLock fd))
  | .dropLock fd => u.lock t (.dropErase fd)
  | .dropErase fd => some ((u.setMember fd none).goto t .dropUnlock)
  | .dropUnlock => some (u.unlock t (.out 0))

def step (u : Sys T M) : Act T M → Option (Sys T M)
  | .callAdd t none => u.enter t (.out (-1))
  | .callAdd t (some (m, fd)) => u.enter t (if fd < 0 then .out (-1) else .addLock m fd)
  | .callRemove t none => u.enter t (.out (-1))
  | .callRemove t (some fd) => u.enter t (.removeLock fd)
  | .callLookup t fd => u.enter t (.lookupLock fd)
  | .callDrop t fd => u.enter t (.dropEpoll fd)
  | .next t refused => next u t refused

/-- The mutex is locked only while a thread is between its lock and its unlock. -/
def Released (u : Sys T M) : Prop :=
  u.io.ioMembersMutex = true → ∃ t, (u.pc t).holds = true

/-- addIoMember meets an fd that is not in the table, removeIoMember one that is. -/
def Proper (u : Sys T M) : Act T M → Prop
  | .next t _ =>
    match u.pc t with
    | .addFind _ fd => u.io.ioMembers fd = none
    | .removeFind fd => u.io.ioMembers fd ≠ none
    | _ => True
  | _ => True

/-- Whoever is between lock and unlock holds the locked mutex, alone. -/
structure Exclusive (u : Sys T M) : Prop where
  locked : ∀ t, (u.pc t).holds = true → u.io.ioMembersMutex = true
  alone : ∀ t t', (u.pc t).holds = true → (u.pc t').holds = true → t = t'

/-- What one step does to the mutex and to the place of its thread `t`. -/
inductive Effect (u v : Sys T M) (a : Act T M) (t : T) (p : Pc M) : Prop
  | lock (hproper : Proper u a) (hfree : u.io.ioMembersMutex = false)
      (hp : p.holds = true) (hv : v.io.ioMembersMutex = true)
  | unlock (hproper : Proper u a) (ht : (u.pc t).holds = true) (hp : p.holds = false)
      (hv : v.io.ioMembersMutex = false)
  | keep (hproper : Proper u a) (hp : p.holds = (u.pc t).holds)
      (hv : v.io.ioMembersMutex = u.io.ioMembersMutex)
  | leak (hproper : ¬ Proper u a) (ht : (u.pc t).holds = true) (hp : p.holds = false)
      (hv : v.io.ioMembersMutex = u.io.ioMembersMutex)

theorem enter_effect {u v : Sys T M} {a : Act T M} {t : T} {p : Pc M} (ha : Proper u a)
    (hp : p.holds = false) (h : u.enter t p = some v) :
    ∃ t p, v.pc = Function.update u.pc t p ∧ Effect u v a t p := by
  cases hpc : u.pc t with
  | out res =>
    obtain rfl : u.goto t p = v := by simpa [Sys.enter, hpc] using h
    exact ⟨t, p, rfl, .keep ha (by rw [hp, hpc]; rfl) rfl⟩
  | _ => simp [Sys.enter, hpc] at h

theorem lock_effect {u v : Sys T M} {a : Act T M} {t : T} {p : Pc M} (ha : Proper u a)
    (hp : p.holds = true) (h : u.lock t p = some v) :
    ∃ t p, v.pc = Function.update u.pc t p ∧ Effect u v a t p := by
  cases hm : u.io.ioMembersMutex with
  | true => simp [Sys.lock, hm] at h
  | false =>
    obtain rfl : { u with io := { u.io with ioMembersMutex := true } }.goto t p = v := by
      simpa [Sys.lock, hm] using h
    exact ⟨t, p, rfl, .lock ha hm hp rfl⟩

theorem next_effect {u v : Sys T M} {t : T} {refused : Bool} (h : next u t refused = some v) :
    ∃ t' p, v.pc = Function.update u.pc t' p ∧ Effect u v (.next t refused) t' p := by
  cases hpc : u.pc t with
  | out res => simp [next, hpc] at h
  | addLock m fd =>
    simp only [next, hpc] at h
    exact lock_effect (by simp [Proper, hpc]) rfl h
  | addFind m fd =>
    cases hf : u.io.ioMembers fd with
    | none =>
      obtain rfl : u.goto t (.addStore m fd) = v := by simpa [next, hpc, hf] using h
      exact ⟨t, _, rfl, .keep (by simp [Proper, hpc, hf]) (by rw [hpc]; rfl) rfl⟩
    | some old =>
      obtain rfl : u.goto t (.out 0) = v := by simpa [next, hpc, hf] using h
      exact ⟨t, _, rfl, .leak (by simp [Proper, hpc, hf]) (by rw [hpc]; rfl) rfl rfl⟩
  | removeFind fd =>
    cases hf : u.io.ioMembers fd with
    | none =>
      obtain rfl : u.goto t (.out (-1)) = v := by simpa [next, hpc, hf] using h
      exact ⟨t, _, rfl, .leak (by simp [Proper, hpc, hf]) (by rw [hpc]; rfl) rfl rfl⟩
    | some old =>
      obtain rfl : u.goto t (.removeErase fd) = v := by simpa [next, hpc, hf] using h
      exact ⟨t, _, rfl, .keep (by simp [Proper, hpc, hf]) (by rw [hpc]; rfl) rfl⟩
  | removeLock fd | lookupLock fd | dropLock fd =>
    simp only [next, hpc] at h
    exact lock_effect (by simp [Proper, hpc]) rfl h
  | addUnlock fd | removeUnlock fd | lookupUnlock | dropUnlock =>
    simp only [next, hpc, Option.some.injEq] at h
    subst h
    exact ⟨t, _, rfl, .unlock (by simp [Proper, hpc]) (by rw [hpc]; rfl) rfl rfl⟩
  | _ =>
    simp only [next, hpc, Option.some.injEq] at h
    subst h
    exact ⟨t, _, rfl, .keep (by simp [Proper, hpc]) (by rw [hpc]; rfl) rfl⟩

theorem step_effect {u v : Sys T M} {a : Act T M} (h : step u a = some v) :
    ∃ t p, v.pc = Function.update u.pc t p ∧ Effect u v a t p := by
  cases a with
  | callAdd t ioMember =>
    cases ioMember with
    | none => exact enter_effect trivial rfl h
    | some m =>
      refine enter_effect trivial ?_ h
      split_ifs <;> rfl
  | callRemove t ioMember =>
    cases ioMember with
    | none => exact enter_effect trivial rfl h
    | some fd => exact enter_effect trivial rfl h
  | callLookup t fd => exact enter_effect trivial rfl h
  | callDrop t fd => exact enter_effect trivial rfl h
  | next t refused => exact next_effect h

theorem holds_update {u v : Sys T M} {t : T} {p : Pc M} (hpc : v.pc = Function.update u.pc t p)
    (t' : T) : (v.pc t').holds = true ↔ (t' = t ∧ p.holds = true) ∨
      (t' ≠ t ∧ (u.pc t').holds = true) := by
  by_cases ht : t' = t
  · subst ht
    simp [hpc]
  · simp [hpc, ht]

/-- A thread that leaves its critical section, properly or not, leaves nobody in one. -/
theorem not_holds_of_leave {u v : Sys T M} {t : T} {p : Pc M} (hu : Exclusive u)
    (hpc : v.pc = Function.update u.pc t p) (ht : (u.pc t).holds = true)
    (hp : p.holds = false) (t' : T) : ¬ (v.pc t').holds = true := by
  intro h
  rcases (holds_update hpc t').mp h with ⟨-, hholds⟩ | ⟨hne, hholds⟩
  · rw [hp] at hholds
    cases hholds
  · exact hne (hu.alone t' t hholds ht)

theorem exclusive_step {u v : Sys T M} {a : Act T M} (hu : Exclusive u)
    (h : step u a = some v) : Exclusive v := by
  obtain ⟨t, p, hpc, heffect⟩ := step_effect h
  cases heffect with
  | lock _ hfree hp hv =>
    have hnone (t' : T) (ht : (u.pc t').holds = true) : False := by
      have hlocked := hu.locked t' ht
      rw [hfree] at hlocked
      cases hlocked
    have honly (t' : T) (ht : (v.pc t').holds = true) : t' = t :=
      ((holds_update hpc t').mp ht).elim And.left fun hold => (hnone t' hold.2).elim
    exact ⟨fun _ _ => hv, fun t₁ t₂ h₁ h₂ => (honly t₁ h₁).trans (honly t₂ h₂).symm⟩
  | unlock _ ht hp hv =>
    have hnone := not_holds_of_leave hu hpc ht hp
    exact ⟨fun t' h' => absurd h' (hnone t'), fun t' _ h' => absurd h' (hnone t')⟩
  | keep _ hp hv =>
    have hsame (t' : T) (h' : (v.pc t').holds = true) : (u.pc t').holds = true := by
      rcases (holds_update hpc t').mp h' with ⟨rfl, hholds⟩ | ⟨-, hholds⟩
      · exact hp ▸ hholds
      · exact hholds
    exact ⟨fun t' h' => hv.trans (hu.locked t' (hsame t' h')),
      fun t₁ t₂ h₁ h₂ => hu.alone t₁ t₂ (hsame t₁ h₁) (hsame t₂ h₂)⟩
  | leak _ ht hp hv =>
    have hnone := not_holds_of_leave hu hpc ht hp
    exact ⟨fun t' h' => absurd h' (hnone t'), fun t' _ h' => absurd h' (hnone t')⟩

/-- One step keeps the mutex with its critical sections exactly when it is proper. -/
theorem released_step_iff {u v : Sys T M} {a : Act T M} (hu : Exclusive u) (hr : Released u)
    (h : step u a = some v) : Released v ↔ Proper u a := by
  obtain ⟨t, p, hpc, heffect⟩ := step_effect h
  cases heffect with
  | lock hproper _ hp _ =>
    exact iff_of_true (fun _ => ⟨t, (holds_update hpc t).mpr (.inl ⟨rfl, hp⟩)⟩) hproper
  | unlock hproper _ _ hv =>
    refine iff_of_true (fun hlocked => ?_) hproper
    rw [hv] at hlocked
    cases hlocked
  | keep hproper hp hv =>
    refine iff_of_true (fun hlocked => ?_) hproper
    obtain ⟨t', ht'⟩ := hr (hv ▸ hlocked)
    by_cases hne : t' = t
    · subst hne
      exact ⟨t', (holds_update hpc t').mpr (.inl ⟨rfl, hp.trans ht'⟩)⟩
    · exact ⟨t', (holds_update hpc t').mpr (.inr ⟨hne, ht'⟩)⟩
  | leak hproper ht hp hv =>
    refine iff_of_false (fun hreleased => ?_) hproper
    obtain ⟨t', ht'⟩ := hreleased (hv.trans (hu.locked t ht))
    exact not_holds_of_leave hu hpc ht hp t' ht'

/-- Nobody runs code of IoModule and the mutex is free. -/
structure Idle (u : Sys T M) : Prop where
  free : u.io.ioMembersMutex = false
  out : ∀ t, ∃ res, u.pc t = .out res

omit [DecidableEq T] in
theorem Idle.exclusive {u : Sys T M} (h : Idle u) : Exclusive u := by
  have hnone (t : T) (ht : (u.pc t).holds = true) : False := by
    obtain ⟨res, hres⟩ := h.out t
    rw [hres] at ht
    cases ht
  exact ⟨fun t ht => (hnone t ht).elim, fun t _ ht => (hnone t ht).elim⟩

omit [DecidableEq T] in
theorem Idle.released {u : Sys T M} (h : Idle u) : Released u := by
  intro hlocked
  rw [h.free] at hlocked
  cases hlocked

/-- In every run of any threads, the mutex is never left locked exactly when no add meets
an fd of the table and no removal one that is not in it. -/
theorem always_released_iff {u v : Sys T M} {ms : List (Move (Sys T M) (Act T M))}
    (hu : Idle u) (h : Path step u ms v) :
    (∀ m ∈ ms, Released m.post) ↔ ∀ m ∈ ms, Proper m.pre m.act := by
  exact (h.kept_iff hu.exclusive hu.released (fun _ _ _ hi hs => exclusive_step hi hs)
    fun _ _ _ hi hr hs => released_step_iff hi hr hs).1

/-- One thread, an empty table, and a member whose getFd returns -1. -/
def single : Sys Unit Unit := ⟨{}, {}, fun _ => .out 0⟩

theorem single_idle : Idle single := ⟨rfl, fun _ => ⟨0, rfl⟩⟩

theorem remove_run : ∃ ms v, Path step single ms v ∧ ms ≠ [] ∧ ¬ Released v := by
  have hrun : run step single [.callRemove () (some (-1)), .next () false, .next () false] =
      some ⟨{ ioMembersMutex := true }, {}, fun _ => .out (-1)⟩ := rfl
  obtain ⟨ms, hp, hacts⟩ := path_of_run hrun
  refine ⟨ms, _, hp, ?_, ?_⟩
  · rintro rfl
    cases hacts
  · intro hreleased
    obtain ⟨t, ht⟩ := hreleased rfl
    cases ht

theorem always_released_iff_remove :
    ∃ (ms : List (Move (Sys Unit Unit) (Act Unit Unit))) (v : Sys Unit Unit), ms ≠ [] ∧
      Path step single ms v ∧
      ((∀ m ∈ ms, Released m.post) ↔ ∀ m ∈ ms, Proper m.pre m.act) := by
  obtain ⟨ms, v, hp, hne, -⟩ := remove_run
  exact ⟨ms, v, hne, hp, always_released_iff single_idle hp⟩

/-- Removing a stopped connection leaves the mutex locked for ever. -/
theorem mutex_stays_locked :
    ¬ ∀ (u v : Sys Unit Unit) (ms : List (Move (Sys Unit Unit) (Act Unit Unit))), Idle u →
      Path step u ms v → Released v := by
  intro h
  obtain ⟨ms, v, hp, -, hlocked⟩ := remove_run
  exact hlocked (h single v ms single_idle hp)

theorem run_addIoMember {u : Sys T M} {t : T} {last : Int} (hpc : u.pc t = .out last)
    {ioMember : Option (M × Int)} {refused : Bool} {io : IoModule M} {k : Kernel} {res : Int}
    (h : addIoMember u.io u.kernel ioMember refused = some (io, k, res)) :
    ∃ n, run step u (.callAdd t ioMember :: List.replicate n (.next t refused)) =
      some ⟨io, k, Function.update u.pc t (.out res)⟩ := by
  obtain ⟨⟨state, mutex, pipe, epoll, size, events, members⟩, kernel, pc⟩ := u
  replace hpc : pc t = .out last := hpc
  cases ioMember with
  | none =>
    obtain ⟨rfl, rfl, rfl⟩ : _ = io ∧ _ = k ∧ -1 = res := by simpa [addIoMember] using h
    exact ⟨0, by simp [run, step, Sys.enter, hpc, Sys.goto]⟩
  | some m =>
    obtain ⟨m, fd⟩ := m
    by_cases hfd : fd < 0
    · obtain ⟨rfl, rfl, rfl⟩ : _ = io ∧ _ = k ∧ -1 = res := by simpa [addIoMember, hfd] using h
      exact ⟨0, by simp [run, step, Sys.enter, hpc, hfd, Sys.goto]⟩
    · cases mutex with
      | true => simp [addIoMember, hfd] at h
      | false =>
        cases hf : members fd with
        | some old =>
          obtain ⟨rfl, rfl, rfl⟩ : _ = io ∧ _ = k ∧ 0 = res := by
            simpa [addIoMember, hfd, hf] using h
          exact ⟨2, by simp [run, step, Sys.enter, hpc, hfd, next, Sys.lock, Sys.goto, hf]⟩
        | none =>
          obtain ⟨rfl, rfl, rfl⟩ : _ = io ∧ _ = k ∧ _ = res := by
            simpa [addIoMember, hfd, hf] using h
          exact ⟨6, by
            simp [run, step, Sys.enter, hpc, hfd, next, Sys.lock, Sys.goto, hf, Sys.setMember,
              Sys.unlock, List.replicate]⟩

theorem run_removeIoMember {u : Sys T M} {t : T} {last : Int} (hpc : u.pc t = .out last)
    {ioMember : Option Int} {refused : Bool} {io : IoModule M} {k : Kernel} {res : Int}
    (h : removeIoMember u.io u.kernel ioMember refused = some (io, k, res)) :
    ∃ n, run step u (.callRemove t ioMember :: List.replicate n (.next t refused)) =
      some ⟨io, k, Function.update u.pc t (.out res)⟩ := by
  obtain ⟨⟨state, mutex, pipe, epoll, size, events, members⟩, kernel, pc⟩ := u
  replace hpc : pc t = .out last := hpc
  cases ioMember with
  | none =>
    obtain ⟨rfl, rfl, rfl⟩ : _ = io ∧ _ = k ∧ -1 = res := by simpa [removeIoMember] using h
    exact ⟨0, by simp [run, step, Sys.enter, hpc, Sys.goto]⟩
  | some fd =>
    cases mutex with
    | true => simp [removeIoMember] at h
    | false =>
      cases hf : members fd with
      | none =>
        obtain ⟨rfl, rfl, rfl⟩ : _ = io ∧ _ = k ∧ -1 = res := by
          simpa [removeIoMember, hf] using h
        exact ⟨2, by simp [run, step, Sys.enter, hpc, next, Sys.lock, Sys.goto, hf]⟩
      | some old =>
        obtain ⟨rfl, hepoll⟩ : _ = io ∧ _ = (k, res) := by
          simpa [removeIoMember, hf] using h
        exact ⟨5, by
          simp [run, step, Sys.enter, hpc, next, Sys.lock, Sys.goto, hf, Sys.setMember,
            Sys.unlock, List.replicate, hepoll]⟩

end DericRpc.MembersLock
