import DericRpc.IoModule
import DericRpc.Lib.Lts

/-! IoModule's table beside what epoll watches, over any sequence of addIoMember and
removeIoMember calls: when the two agree, and when a call that fails changes neither. -/
namespace DericRpc.IoTable
open Common Io Lts

/-- `res` is what the last call returned. -/
structure Sys (M : Type) where
  io : IoModule M
  kernel : Kernel
  res : Int := 0

inductive Act (M : Type) where
  | add (ioMember : Option (M × Int)) (refused : Bool)
  | remove (ioMember : Option Int) (refused : Bool)

variable {M : Type}

/-- A call has no next state where the mutex is never given back. -/
def step (u : Sys M) : Act M → Option (Sys M)
  | .add ioMember refused =>
    (addIoMember u.io u.kernel ioMember refused).map fun (io, k, res) => ⟨io, k, res⟩
  | .remove ioMember refused =>
    (removeIoMember u.io u.kernel ioMember refused).map fun (io, k, res) => ⟨io, k, res⟩

/-- The table has the fds that epoll watches, other than the wake-up pipe. -/
def Mirrors (io : IoModule M) (k : Kernel) : Prop :=
  ∀ fd, (io.ioMembers fd).isSome = true ↔ k.interest fd = true ∧ fd ≠ io.wakeUpPipeFd.1

/-- Table and epoll agree after the call; one that did not fail has put its member into the
table, one that failed has changed nothing. -/
structure Atomic (m : Move (Sys M) (Act M)) : Prop where
  mirrors : Mirrors m.post.io m.post.kernel
  mapped : ∀ member fd refused, m.act = .add (some (member, fd)) refused → 0 ≤ m.post.res →
    m.post.io.ioMembers fd = some member
  unchanged : m.post.res < 0 → m.post.io.ioMembers = m.pre.io.ioMembers ∧
    m.post.kernel.interest = m.pre.kernel.interest

/-- modifyEpollEvent gets as far as the kernel, which does not refuse. -/
structure Reaches (io : IoModule M) (k : Kernel) (fd : Int) (refused : Bool) : Prop where
  state : io.state ≠ .created
  epollFd : 0 ≤ io.epollFd
  fd_nonneg : 0 ≤ fd
  allowed : refused = false
  epoll_open : k.isOpen io.epollFd = true
  fd_open : k.isOpen fd = true

/-- A new member has an fd that neither the table nor the wake-up pipe has, and epoll takes
it; and epoll lets go of a member that is removed. -/
def Accepted (u : Sys M) : Act M → Prop
  | .add (some (m, fd)) refused => 0 ≤ fd → u.io.ioMembers fd = some m ∨
      (u.io.ioMembers fd = none ∧ fd ≠ u.io.wakeUpPipeFd.1 ∧ Reaches u.io u.kernel fd refused)
  | .remove (some fd) refused => u.io.ioMembers fd ≠ none → Reaches u.io u.kernel fd refused
  | _ => True

theorem rank_lt_initialized {s : ComponentState} :
    s.rank < ComponentState.initialized.rank ↔ s = .created := by
  cases s <;> decide

theorem modifyEpollEvent_fails {io : IoModule M} {k : Kernel} {op : EpollOp} {fd : Int}
    {refused : Bool} (h : ¬Reaches io k fd refused) :
    modifyEpollEvent io k op fd refused = (k, -1) := by
  unfold modifyEpollEvent
  split_ifs with hready hfd
  · rfl
  · rfl
  · rw [not_or, not_lt, rank_lt_initialized] at hready
    refine if_pos ?_
    by_contra hne
    simp only [not_or, Bool.not_eq_true, Bool.not_eq_false] at hne
    exact h ⟨hready.2, hready.1, not_lt.mp hfd, hne.1, hne.2.1, hne.2.2⟩

/-- One that reaches it adds what is not watched, and takes out what is. -/
theorem modifyEpollEvent_reaches {io : IoModule M} {k : Kernel} {fd : Int} {refused : Bool}
    (h : Reaches io k fd refused) :
    (k.interest fd = false → modifyEpollEvent io k .add fd refused =
      ({ k with interest := Function.update k.interest fd true }, 0)) ∧
    (k.interest fd = true → modifyEpollEvent io k .del fd refused =
      ({ k with interest := Function.update k.interest fd false }, 0)) := by
  have hready : ¬(io.epollFd < 0 ∨ io.state.rank < ComponentState.initialized.rank) := by
    rw [rank_lt_initialized]
    exact not_or.mpr ⟨not_lt.mpr h.epollFd, h.state⟩
  constructor <;> intro hinterest <;> rw [modifyEpollEvent, if_neg hready,
    if_neg (not_lt.mpr h.fd_nonneg)] <;>
    simp [Kernel.epollCtl, h.allowed, h.epoll_open, h.fd_open, hinterest]

theorem addIoMember_new {io : IoModule M} {k : Kernel} {m : M} {fd : Int} (refused : Bool)
    (hfd : ¬fd < 0) (hmutex : io.ioMembersMutex = false) (hf : io.ioMembers fd = none) :
    ∃ k', k'.interest = (modifyEpollEvent io k .add fd refused).1.interest ∧
      addIoMember io k (some (m, fd)) refused =
        some ({ io with ioMembers := Function.update io.ioMembers fd (some m) }, k',
          (modifyEpollEvent io k .add fd refused).2) := by
  refine ⟨_, ?_, by simp only [addIoMember, if_neg hfd, hmutex, hf, Bool.false_eq_true, if_false]; rfl⟩
  rw [wakeupModule_interest]
  rfl

theorem removeIoMember_known {io : IoModule M} {k : Kernel} {m : M} {fd : Int} (refused : Bool)
    (hmutex : io.ioMembersMutex = false) (hf : io.ioMembers fd = some m) :
    removeIoMember io k (some fd) refused =
      some ({ io with ioMembers := Function.update io.ioMembers fd none },
        (modifyEpollEvent io k .del fd refused).1, (modifyEpollEvent io k .del fd refused).2) := by
  simp only [removeIoMember, hmutex, hf, Bool.false_eq_true, if_false]
  rfl

theorem atomic_of_refused {u v : Sys M} {a : Act M} (hi : Mirrors u.io u.kernel)
    (hio : v.io.ioMembers = u.io.ioMembers) (hpipe : v.io.wakeUpPipeFd = u.io.wakeUpPipeFd)
    (hk : v.kernel = u.kernel) (hres : v.res = -1) : Atomic ⟨u, a, v⟩ where
  mirrors fd := by
    simp only [hio, hpipe, hk]
    exact hi fd
  mapped _ _ _ _ h0 := by
    simp only [hres] at h0
    exact absurd h0 (by decide)
  unchanged _ := ⟨hio, by simp only [hk]⟩

theorem add_iff {u v : Sys M} {ioMember : Option (M × Int)} {refused : Bool}
    (hi : Mirrors u.io u.kernel) (h : step u (.add ioMember refused) = some v) :
    Atomic ⟨u, .add ioMember refused, v⟩ ↔ Accepted u (.add ioMember refused) := by
  obtain ⟨⟨io, k, res⟩, hadd, rfl⟩ := Option.map_eq_some_iff.mp h
  cases ioMember with
  | none =>
    obtain ⟨rfl, rfl, rfl⟩ : u.io = io ∧ u.kernel = k ∧ -1 = res := by
      simpa [addIoMember] using hadd
    exact iff_of_true (atomic_of_refused hi rfl rfl rfl rfl) trivial
  | some member =>
    obtain ⟨m, fd⟩ := member
    by_cases hfd : fd < 0
    · obtain ⟨rfl, rfl, rfl⟩ : u.io = io ∧ u.kernel = k ∧ -1 = res := by
        simpa [addIoMember, hfd] using hadd
      exact iff_of_true (atomic_of_refused hi rfl rfl rfl rfl) fun h0 => absurd h0 (not_le.mpr hfd)
    have hmutex := addIoMember_mutex (not_lt.mp hfd) hadd
    cases hf : u.io.ioMembers fd with
    | some old =>
      obtain ⟨rfl, rfl, rfl⟩ : { u.io with ioMembersMutex := true } = io ∧ u.kernel = k ∧ 0 = res := by
        simpa [addIoMember, hfd, hmutex, hf] using hadd
      have hsame : Accepted u (.add (some (m, fd)) refused) ↔ old = m := by
        simp [Accepted, hf, not_lt.mp hfd]
      rw [hsame]
      constructor
      · intro hatomic
        exact Option.some.inj (hf.symm.trans (hatomic.mapped m fd refused rfl le_rfl))
      · rintro rfl
        refine ⟨hi, fun m' fd' r he _ => ?_, fun hneg => absurd hneg (lt_irrefl 0)⟩
        obtain ⟨rfl, rfl⟩ := Prod.mk.inj (Option.some.inj (Act.add.inj he).1)
        exact hf
    | none =>
      obtain ⟨k', hinterest, hnew⟩ := addIoMember_new (m := m) refused hfd hmutex hf
      rw [hnew] at hadd
      obtain ⟨rfl, hrest⟩ := Prod.mk.inj (Option.some.inj hadd)
      obtain ⟨rfl, rfl⟩ := Prod.mk.inj hrest
      have haccepted : Accepted u (.add (some (m, fd)) refused) ↔
          fd ≠ u.io.wakeUpPipeFd.1 ∧ Reaches u.io u.kernel fd refused := by
        simp [Accepted, hf, not_lt.mp hfd]
      rw [haccepted]
      by_cases hr : Reaches u.io u.kernel fd refused
      · by_cases hpipe : fd = u.io.wakeUpPipeFd.1
        · refine iff_of_false (fun hatomic => ?_) fun hc => hc.1 hpipe
          exact ((hatomic.mirrors fd).mp (by simp)).2 hpipe
        · have hfree : u.kernel.interest fd = false := by
            by_contra hwatched
            have hsome := (hi fd).mpr ⟨by simpa using hwatched, hpipe⟩
            rw [hf] at hsome
            cases hsome
          refine iff_of_true ?_ ⟨hpipe, hr⟩
          rw [(modifyEpollEvent_reaches hr).1 hfree] at hinterest ⊢
          refine ⟨fun fd' => ?_, fun m' fd' r he _ => ?_, fun hneg => absurd hneg (lt_irrefl 0)⟩
          · by_cases hfd' : fd' = fd
            · subst hfd'
              simpa [hinterest] using hpipe
            · simpa [hinterest, hfd'] using hi fd'
          · obtain ⟨rfl, rfl⟩ := Prod.mk.inj (Option.some.inj (Act.add.inj he).1)
            simp
      · refine iff_of_false (fun hatomic => ?_) fun hc => hr hc.2
        rw [modifyEpollEvent_fails hr] at hatomic
        have hsame := congrFun (hatomic.unchanged (show (-1 : Int) < 0 by decide)).1 fd
        simp [hf] at hsame

theorem remove_iff {u v : Sys M} {ioMember : Option Int} {refused : Bool}
    (hi : Mirrors u.io u.kernel) (h : step u (.remove ioMember refused) = some v) :
    Atomic ⟨u, .remove ioMember refused, v⟩ ↔ Accepted u (.remove ioMember refused) := by
  obtain ⟨⟨io, k, res⟩, hremove, rfl⟩ := Option.map_eq_some_iff.mp h
  cases ioMember with
  | none =>
    obtain ⟨rfl, rfl, rfl⟩ : u.io = io ∧ u.kernel = k ∧ -1 = res := by
      simpa [removeIoMember] using hremove
    exact iff_of_true (atomic_of_refused hi rfl rfl rfl rfl) trivial
  | some fd =>
    have hmutex := (removeIoMember_cases hremove).1
    cases hf : u.io.ioMembers fd with
    | none =>
      obtain ⟨rfl, rfl, rfl⟩ : { u.io with ioMembersMutex := true } = io ∧ u.kernel = k ∧ -1 = res := by
        simpa [removeIoMember, hmutex, hf] using hremove
      exact iff_of_true (atomic_of_refused hi rfl rfl rfl rfl) fun hne => absurd hf hne
    | some old =>
      rw [removeIoMember_known refused hmutex hf] at hremove
      obtain ⟨rfl, hrest⟩ := Prod.mk.inj (Option.some.inj hremove)
      obtain ⟨rfl, rfl⟩ := Prod.mk.inj hrest
      have haccepted : Accepted u (.remove (some fd) refused) ↔
          Reaches u.io u.kernel fd refused := by
        simp [Accepted, hf]
      rw [haccepted]
      by_cases hr : Reaches u.io u.kernel fd refused
      · have hwatched : u.kernel.interest fd = true := ((hi fd).mp (by rw [hf]; rfl)).1
        refine iff_of_true ?_ hr
        rw [(modifyEpollEvent_reaches hr).2 hwatched]
        refine ⟨fun fd' => ?_, fun _ _ _ he => (by cases he),
          fun hneg => absurd hneg (lt_irrefl 0)⟩
        by_cases hfd' : fd' = fd
        · subst hfd'
          simp
        · simpa [hfd'] using hi fd'
      · refine iff_of_false (fun hatomic => ?_) hr
        rw [modifyEpollEvent_fails hr] at hatomic
        have hsame := congrFun (hatomic.unchanged (show (-1 : Int) < 0 by decide)).1 fd
        simp [hf] at hsame

theorem step_iff {u v : Sys M} {a : Act M} (hi : Mirrors u.io u.kernel) (h : step u a = some v) :
    Atomic ⟨u, a, v⟩ ↔ Accepted u a := by
  cases a with
  | add ioMember refused => exact add_iff hi h
  | remove ioMember refused => exact remove_iff hi h

/-- In every run of additions and removals: table and epoll agree and every call is all or
nothing, exactly when epoll takes what is new and lets go of what is removed. -/
theorem atomic_iff {u v : Sys M} {ms : List (Move (Sys M) (Act M))} (hi : Mirrors u.io u.kernel)
    (h : Path step u ms v) : (∀ m ∈ ms, Atomic m) ↔ ∀ m ∈ ms, Accepted m.pre m.act :=
  h.guarded_moves_iff (I := fun u => Mirrors u.io u.kernel) hi
    (fun _ _ _ hu ha hs => ((step_iff hu hs).mpr ha).mirrors) fun _ _ _ hu hs => step_iff hu hs

/-- A module whose init has not been called, and a member with fd 3. -/
def uninitialized : Sys Unit := { io := {}, kernel := {} }

def added : Sys Unit :=
  { io := { ioMembers := Function.update (fun _ => none) 3 (some ()) }, kernel := {}, res := -1 }

theorem add_uninitialized :
    Path step uninitialized [⟨uninitialized, .add (some ((), 3)) false, added⟩] added :=
  Path.nil.snoc rfl

theorem atomic_iff_uninitialized :
    (∀ m ∈ [(⟨uninitialized, .add (some ((), 3)) false, added⟩ : Move (Sys Unit) (Act Unit))],
      Atomic m) ↔
    ∀ m ∈ [(⟨uninitialized, .add (some ((), 3)) false, added⟩ : Move (Sys Unit) (Act Unit))],
      Accepted m.pre m.act :=
  atomic_iff (fun fd => by simp [uninitialized]) add_uninitialized

/-- A member that epoll did not take stays in the table. -/
theorem refused_member_stays :
    ¬ ∀ (u v : Sys Unit) (ms : List (Move (Sys Unit) (Act Unit))), Mirrors u.io u.kernel →
      Path step u ms v → ∀ m ∈ ms, Atomic m := by
  intro h
  have hatomic := h _ _ _ (fun fd => by simp [uninitialized]) add_uninitialized _
    (List.mem_singleton.mpr rfl)
  have hsame := congrFun (hatomic.unchanged (by decide)).1 3
  simp [added, uninitialized] at hsame

end DericRpc.IoTable
