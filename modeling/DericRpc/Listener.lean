import DericRpc.ServiceLife

/-! RpcServiceImpl beside its TcpIoServer: when one is STARTED exactly while the other is, with
a listening socket that IoModule maps to the server's entry. -/
namespace DericRpc.Listener
open ByteString Common Serial Connection Io IoServer Lts ServiceLife
variable {P : MsgPack} {W : Type}

/-- The TcpIoServerEntry objects by the number of the start that makes them: `mapped` is the one
that m_ioMembers holds under a number, `ioEntry` the one of m_ioEntry. -/
structure Service (P : MsgPack) (W : Type) where
  system : System P W
  starts : Nat := 0
  mapped : Int → Option Nat := fun _ => none
  ioEntry : Option Nat := none

/-- What `a` has made of the entries; the table takes a new one only where it has none. -/
def Service.next (u : Service P W) (v : System P W) (res : Int) : Act → Service P W
  | .start _ =>
    { system := v
      starts := u.starts + 1
      mapped := fun fd =>
        if u.system.io.ioMembers fd = none ∧ v.io.ioMembers fd ≠ none then some u.starts
        else u.mapped fd
      ioEntry := if 0 ≤ res then some u.starts else u.ioEntry }
  | _ => { u with system := v }

/-- Other components leave a listening socket and its place in the table alone. -/
def Spares (u : System P W) : Act → Prop
  | .other _ io kernel => ∀ server ∈ u.impl.ioServer, server.state = .started →
      io.ioMembers server.socketFd = u.io.ioMembers server.socketFd ∧
        kernel.isOpen server.socketFd = u.kernel.isOpen server.socketFd
  | _ => True

instance (u : System P W) (a : Act) : Decidable (Spares u a) :=
  match a with
  | .other _ _ _ => inferInstanceAs (Decidable (∀ server ∈ u.impl.ioServer, _ → _ ∧ _))
  | .init _ | .deInit _ | .start _ | .stop _ | .ioError _ => isTrue trivial

def step (u : Service P W) (a : Act) : Option (Service P W) :=
  if Spares u.system a then (call u.system a).map fun (v, res) => u.next v res a else none

/-- The service is STARTED iff its server is, and then the listening socket is open and
m_ioMembers has m_ioEntry under it. -/
structure Agree (u : Service P W) : Prop where
  started : u.system.impl.state = .started ↔
    ∃ server ∈ u.system.impl.ioServer, server.state = .started
  listening : u.system.impl.state = .started → ∀ server ∈ u.system.impl.ioServer,
    u.system.kernel.isOpen server.socketFd = true ∧
      u.system.io.ioMembers server.socketFd = some (.listener server.socketFd) ∧
      u.mapped server.socketFd = u.ioEntry

/-- start gets as far as addIoMember. -/
structure Registers (u : System P W) (a : StartAnswers) : Prop where
  state : u.impl.state = .initialized
  server : ∃ server ∈ u.impl.ioServer, server.state = .initialized
  sock : 0 ≤ a.sock
  bound : a.bound = true
  listening : a.listening = true

/-- No listener error reaches a started server, and a start gets a socket whose number
m_ioMembers does not have. -/
def Undisturbed (u : System P W) : Act → Prop
  | .ioError _ => ∀ server ∈ u.impl.ioServer, server.state ≠ .started
  | .start a => Registers u a → u.io.ioMembers a.sock = none
  | _ => True

structure Inv (u : Service P W) : Prop where
  agree : Agree u
  mapped : ∀ fd n, u.mapped fd = some n → n < u.starts

theorem inv_new (io : IoModule Member) (kernel : Kernel) :
    Inv (P := P) (W := W) { system := { io := io, kernel := kernel } } where
  agree := ⟨by simp, fun h => by cases h⟩
  mapped _ _ h := by cases h

/-- What a start of an initialized server that registers its socket makes of it. -/
theorem start_registers {s : TcpIoServer} {io : IoModule Member} {k : Kernel} {a : StartAnswers}
    {out : ServerOut} (hs : s.state = .initialized) (hsock : 0 ≤ a.sock) (hbound : a.bound = true)
    (hlisten : a.listening = true) (h : s.start io k a = some out) :
    (io.ioMembers a.sock ≠ none ∧ out.res = 0 ∧ out.server.state = .started ∧
      out.server.socketFd = a.sock ∧ out.io.ioMembers = io.ioMembers) ∨
    (io.ioMembers a.sock = none ∧
      out.io.ioMembers = Function.update io.ioMembers a.sock (some (.listener a.sock)) ∧
      ((out.res < 0 ∧ out.server.state = .initialized) ∨
        (0 ≤ out.res ∧ out.server.state = .started ∧ out.server.socketFd = a.sock ∧
          out.kernel.isOpen a.sock = true))) := by
  cases start_step h with
  | skipped hdown => exact absurd hs hdown
  | noSocket _ hneg => exact absurd hneg (not_lt.mpr hsock)
  | dropped _ _ hunready => exact absurd ⟨hbound, hlisten⟩ hunready
  | unlisted io' k' res _ _ _ hadd hres =>
    rcases addIoMember_cases hsock hadd with ⟨_, -, -, -, rfl⟩ | ⟨hnone, rfl, -⟩
    · exact absurd hres (lt_irrefl 0)
    · exact .inr ⟨hnone, rfl, .inl ⟨hres, hs⟩⟩
  | listed io' k' res _ _ _ hadd hres =>
    have hopen : k'.isOpen a.sock = true := by
      rw [addIoMember_isOpen hadd]
      simp [Kernel.openFd]
    rcases addIoMember_cases hsock hadd with ⟨old, hold, rfl, -, rfl⟩ | ⟨hnone, rfl, -⟩
    · exact .inl ⟨by simp [hold], rfl, rfl, rfl, rfl⟩
    · exact .inr ⟨hnone, rfl, .inr ⟨hres, rfl, rfl, hopen⟩⟩

/-- Any other start fails before it looks at the table. -/
theorem start_unregistered {s : TcpIoServer} {io : IoModule Member} {k : Kernel} {a : StartAnswers}
    {out : ServerOut} (h : s.start io k a = some out)
    (hnot : ¬(s.state = .initialized ∧ 0 ≤ a.sock ∧ a.bound = true ∧ a.listening = true)) :
    out.res = -1 ∧ out.server.state = s.state ∧ out.io = io := by
  cases start_step h with
  | skipped _ => exact ⟨rfl, rfl, rfl⟩
  | noSocket _ _ => exact ⟨rfl, rfl, rfl⟩
  | dropped _ _ _ => exact ⟨rfl, rfl, rfl⟩
  | unlisted _ _ _ hs hsock hready _ _ => exact absurd ⟨hs, hsock, hready⟩ hnot
  | listed _ _ _ hs hsock hready _ _ => exact absurd ⟨hs, hsock, hready⟩ hnot

theorem agree_down {u : Service P W} (hstate : u.system.impl.state ≠ .started)
    (hserver : ∀ server ∈ u.system.impl.ioServer, server.state ≠ .started) : Agree u where
  started := iff_of_false hstate fun ⟨server, hmem, hs⟩ => hserver server hmem hs
  listening hs := absurd hs hstate

theorem Agree.down {u : Service P W} (h : Agree u) (hstate : u.system.impl.state ≠ .started) :
    ∀ server ∈ u.system.impl.ioServer, server.state ≠ .started :=
  fun server hmem hs => hstate (h.started.mpr ⟨server, hmem, hs⟩)

theorem init_agree {u : Service P W} (h : Agree u) (config : ServiceConfig) :
    Agree { u with system := (init u.system config).1 } := by
  by_cases hs : u.system.impl.state = .created
  · have hcall : init u.system config = ({ u.system with
        impl := { u.system.impl with
          serialer := config.serialer
          ioServer := some (TcpIoServer.init {}
            ⟨config.serviceIp, config.servicePort, config.maxConnectionNumber, true⟩).1
          state := .initialized } }, 0) := by
      simp [ServiceLife.init, hs, TcpIoServer.init]
    rw [hcall]
    refine agree_down (by simp) fun server hmem => ?_
    obtain rfl := Option.some.inj hmem
    simp [TcpIoServer.init]
  · have hcall : init u.system config = (u.system, -1) := if_pos hs
    rwa [hcall]

theorem deInit_agree {u : Service P W} {v : System P W} {refused : Bool} {res : Int} (h : Agree u)
    (hcall : deInit u.system refused = some (v, res)) : Agree { u with system := v } := by
  by_cases hs : u.system.impl.state = .initialized
  · have hdown := h.down (by simp [hs])
    rw [deInit, if_neg (not_not.mpr hs)] at hcall
    cases hserver : u.system.impl.ioServer with
    | none =>
      rw [hserver] at hcall
      obtain ⟨rfl, -⟩ := Prod.mk.inj (Option.some.inj hcall)
      exact agree_down (by simp [hs]) fun server hmem => by simp [hserver] at hmem
    | some server =>
      rw [hserver] at hcall
      have hout : server.deInit u.system.io u.system.kernel refused = some ⟨{ server with
          ip := [], port := -1, maxConnectionNumber := 0, client := false, state := .created },
          u.system.io, u.system.kernel, 0⟩ := by
        simp [TcpIoServer.deInit, hdown server hserver]
      simp only [hout, Option.map_some] at hcall
      obtain ⟨rfl, -⟩ := Prod.mk.inj (Option.some.inj hcall)
      exact agree_down (by simp) fun server hmem => by simp at hmem
  · have hrefused : deInit u.system refused = some (u.system, -1) := if_pos hs
    rw [hrefused] at hcall
    obtain ⟨rfl, -⟩ := Prod.mk.inj (Option.some.inj hcall)
    exact h

theorem stop_agree {u : Service P W} {v : System P W} {refused : Bool} {res : Int} (h : Agree u)
    (hcall : stop u.system refused = some (v, res)) : Agree { u with system := v } := by
  by_cases hs : u.system.impl.state = .started
  · obtain ⟨server, hserver, -⟩ := h.started.mp hs
    rw [ServiceLife.stop, if_neg (not_not.mpr hs), hserver] at hcall
    obtain ⟨⟨io', k'⟩, -, hstop⟩ := Option.bind_eq_some_iff.mp hcall
    obtain ⟨out, hout, hv⟩ := Option.map_eq_some_iff.mp hstop
    obtain ⟨rfl, -⟩ := Prod.mk.inj hv
    refine agree_down (by simp) fun next hmem => ?_
    obtain rfl := Option.some.inj hmem
    exact stop_down hout
  · have hrefused : stop u.system refused = some (u.system.setState .initialized, -1) := if_pos hs
    rw [hrefused] at hcall
    obtain ⟨rfl, -⟩ := Prod.mk.inj (Option.some.inj hcall)
    exact agree_down (by simp [System.setState]) (h.down hs)

theorem ioError_agree {u : Service P W} {v : System P W} {refused : Bool} (h : Agree u)
    (hguard : ∀ server ∈ u.system.impl.ioServer, server.state ≠ .started)
    (hcall : ioError u.system refused = some v) : Agree { u with system := v } := by
  cases hserver : u.system.impl.ioServer with
  | none =>
    simp only [ioError, hserver] at hcall
    rwa [← Option.some.inj hcall]
  | some server =>
    have hdown := hguard server hserver
    have hstop : server.stop u.system.io u.system.kernel refused =
        some ⟨server, u.system.io, u.system.kernel, -1⟩ := if_pos hdown
    simp only [ioError, hserver, hstop, Option.map_some, Option.some.injEq] at hcall
    subst hcall
    have hnot : u.system.impl.state ≠ .started := fun hs => by
      obtain ⟨_, hmem, hstarted⟩ := h.started.mp hs
      exact hguard _ hmem hstarted
    refine agree_down hnot fun next hmem => ?_
    obtain rfl := Option.some.inj hmem
    exact hdown

theorem ioError_breaks {u : Service P W} {v : System P W} {refused : Bool} {server : TcpIoServer}
    (h : Agree u) (hserver : u.system.impl.ioServer = some server) (hs : server.state = .started)
    (hcall : ioError u.system refused = some v) : ¬Agree { u with system := v } := by
  intro hv
  simp only [ioError, hserver] at hcall
  obtain ⟨out, hout, rfl⟩ := Option.map_eq_some_iff.mp hcall
  have hstate : u.system.impl.state = .started := h.started.mpr ⟨server, hserver, hs⟩
  obtain ⟨next, hmem, hnext⟩ := hv.started.mp hstate
  obtain rfl := Option.some.inj hmem
  rw [stop_state hout, if_pos hs] at hnext
  cases hnext

theorem next_refused {u : Service P W} (h : Agree u) (a : StartAnswers) :
    Agree (u.next u.system (-1) (.start a)) where
  started := h.started
  listening hs server hmem := by
    obtain ⟨hopen, hlistener, hentry⟩ := h.listening hs server hmem
    refine ⟨hopen, hlistener, ?_⟩
    simpa [Service.next, hlistener] using hentry

theorem start_unregistered_agree {u : Service P W} {v : System P W} {a : StartAnswers} {res : Int}
    (h : Agree u) (hnot : ¬Registers u.system a)
    (hcall : ServiceLife.start u.system a = some (v, res)) : Agree (u.next v res (.start a)) := by
  by_cases hs : u.system.impl.state = .initialized
  · rw [ServiceLife.start, if_neg (not_not.mpr hs)] at hcall
    cases hserver : u.system.impl.ioServer with
    | none =>
      rw [hserver] at hcall
      obtain ⟨rfl, rfl⟩ := Prod.mk.inj (Option.some.inj hcall)
      exact next_refused h a
    | some server =>
      rw [hserver] at hcall
      obtain ⟨out, hout, hv⟩ := Option.map_eq_some_iff.mp hcall
      obtain ⟨hres, hstate, -⟩ := start_unregistered hout fun hready => by
        obtain ⟨hinit, hsock, hbound, hlisten⟩ := hready
        exact hnot ⟨hs, ⟨server, hserver, hinit⟩, hsock, hbound, hlisten⟩
      rw [hres, if_pos (by decide)] at hv
      obtain ⟨rfl, rfl⟩ := Prod.mk.inj hv
      refine agree_down (by simp [Service.next, hs]) fun next hmem => ?_
      obtain rfl := Option.some.inj hmem
      rw [hstate]
      exact h.down (by simp [hs]) server hserver
  · have hrefused : ServiceLife.start u.system a = some (u.system, -1) := if_pos hs
    rw [hrefused] at hcall
    obtain ⟨rfl, rfl⟩ := Prod.mk.inj (Option.some.inj hcall)
    exact next_refused h a

/-- A start that registers its socket is kept to exactly when the number is new: else the table
keeps the old entry, and start is told of no failure. -/
theorem start_agree_iff {u : Service P W} {v : System P W} {a : StartAnswers} {res : Int}
    (hi : Inv u) (hcall : ServiceLife.start u.system a = some (v, res)) :
    Agree (u.next v res (.start a)) ↔ Undisturbed u.system (.start a) := by
  by_cases hr : Registers u.system a
  · obtain ⟨hs, ⟨server, hserver, hinit⟩, hsock, hbound, hlisten⟩ := id hr
    rw [ServiceLife.start, if_neg (not_not.mpr hs), hserver] at hcall
    obtain ⟨out, hout, hv⟩ := Option.map_eq_some_iff.mp hcall
    rcases start_registers hinit hsock hbound hlisten hout with
      ⟨hold, hres, hstarted, hfd, htable⟩ | ⟨hnone, htable, hfailed | ⟨hres, hstarted, hfd, hopen⟩⟩
    · rw [hres, if_neg (by decide)] at hv
      obtain ⟨rfl, rfl⟩ := Prod.mk.inj hv
      refine iff_of_false (fun hagree => ?_) fun hguard => hold (hguard hr)
      obtain ⟨-, -, hentry⟩ := hagree.listening rfl out.server rfl
      have hmapped : u.mapped a.sock = some u.starts := by
        simpa [Service.next, hfd, htable, hold] using hentry
      exact absurd (hi.mapped _ _ hmapped) (Nat.lt_irrefl _)
    · obtain ⟨hneg, hstate⟩ := hfailed
      rw [if_pos hneg] at hv
      obtain ⟨rfl, rfl⟩ := Prod.mk.inj hv
      refine iff_of_true (agree_down (by simp [Service.next, hs]) fun next hmem => ?_)
        fun _ => hnone
      obtain rfl := Option.some.inj hmem
      simp [hstate]
    · rw [if_neg (not_lt.mpr hres)] at hv
      obtain ⟨rfl, rfl⟩ := Prod.mk.inj hv
      refine iff_of_true ⟨iff_of_true rfl ⟨out.server, rfl, hstarted⟩, fun _ next hmem => ?_⟩
        fun _ => hnone
      obtain rfl := Option.some.inj hmem
      refine ⟨by rwa [hfd], ?_, ?_⟩
      · simp [Service.next, hfd, htable]
      · simp [Service.next, hfd, htable, hnone, hres]
  · exact iff_of_true (start_unregistered_agree hi.agree hr hcall) fun hguard => absurd hguard hr

theorem step_agree_iff {u v : Service P W} {a : Act} (hi : Inv u) (h : step u a = some v) :
    Agree v ↔ Undisturbed u.system a := by
  obtain ⟨hspares, hstep⟩ := Option.ite_none_right_eq_some.mp h
  obtain ⟨⟨w, res⟩, hcall, rfl⟩ := Option.map_eq_some_iff.mp hstep
  cases a with
  | init config =>
    obtain rfl : (ServiceLife.init u.system config).1 = w :=
      congrArg Prod.fst (Option.some.inj hcall)
    exact iff_of_true (init_agree hi.agree config) trivial
  | deInit refused => exact iff_of_true (deInit_agree hi.agree hcall) trivial
  | start answers => exact start_agree_iff hi hcall
  | stop refused => exact iff_of_true (stop_agree hi.agree hcall) trivial
  | ioError refused =>
    obtain ⟨w', hw, hv⟩ := Option.map_eq_some_iff.mp hcall
    obtain ⟨rfl, -⟩ := Prod.mk.inj hv
    constructor
    · intro hagree server hserver hs
      exact ioError_breaks hi.agree hserver hs hw hagree
    · exact fun hguard => ioError_agree hi.agree hguard hw
  | other clients io kernel =>
    obtain ⟨rfl, -⟩ := Prod.mk.inj (Option.some.inj hcall)
    refine iff_of_true ⟨hi.agree.started, fun hs server hmem => ?_⟩ trivial
    obtain ⟨next, hnext, hstarted⟩ := hi.agree.started.mp hs
    obtain rfl : next = server := Option.some.inj (hnext.symm.trans hmem)
    obtain ⟨htable, hopen⟩ := hspares next hnext hstarted
    obtain ⟨hold, hlistener, hentry⟩ := hi.agree.listening hs next hnext
    exact ⟨hopen.trans hold, htable.trans hlistener, hentry⟩

theorem step_mapped {u v : Service P W} {a : Act} (h : step u a = some v)
    (hu : ∀ fd n, u.mapped fd = some n → n < u.starts) :
    ∀ fd n, v.mapped fd = some n → n < v.starts := by
  obtain ⟨-, hstep⟩ := Option.ite_none_right_eq_some.mp h
  obtain ⟨⟨w, res⟩, -, rfl⟩ := Option.map_eq_some_iff.mp hstep
  cases a with
  | start answers =>
    intro fd n hn
    simp only [Service.next] at hn ⊢
    split_ifs at hn
    · exact Nat.lt_succ_of_le (Option.some.inj hn).ge
    · exact Nat.lt_succ_of_lt (hu fd n hn)
  | _ => exact hu

/-- In every run of a new service, whatever happens between the calls to anything but its
listening socket: service and listener agree in every state exactly when no listener error
reaches a started server and every start that registers its socket finds the number new. -/
theorem agree_iff {io : IoModule Member} {kernel : Kernel} {v : Service P W}
    {ms : List (Move (Service P W) Act)}
    (h : Path step { system := { io := io, kernel := kernel } } ms v) :
    (∀ m ∈ ms, Agree m.post) ↔ ∀ m ∈ ms, Undisturbed m.pre.system m.act :=
  h.guarded_iff (I := Inv) (C := Agree) (G := fun u a => Undisturbed u.system a)
    (inv_new io kernel)
    (fun _ _ _ hi hguard hs => ⟨(step_agree_iff hi hs).mpr hguard, step_mapped hs hi.mapped⟩)
    (fun _ hi => hi.agree) fun _ _ _ hi hs hagree => (step_agree_iff hi hs).mp hagree

/-- IoModule as start leaves it, in a process that has nothing else open. -/
def running : Service standard Unit where
  system :=
    { io := { state := .started, wakeUpPipeFd := (3, 4), epollFd := 5, epollEvents := true }
      kernel := { isOpen := fun fd => decide (0 ≤ fd ∧ fd ≤ 5) } }

def startActs : List Act := [.init ⟨[], 80, 5, true⟩, .start ⟨6, true, true, false⟩]

theorem agree_iff_start : ∃ (ms : List (Move (Service standard Unit) Act))
    (v : Service standard Unit), Path step running ms v ∧ v.system.impl.state = .started ∧
      ((∀ m ∈ ms, Agree m.post) ↔ ∀ m ∈ ms, Undisturbed m.pre.system m.act) := by
  have hrun : ∃ v, run step running startActs = some v ∧ v.system.impl.state = .started :=
    ⟨_, rfl, rfl⟩
  obtain ⟨v, hv, hs⟩ := hrun
  obtain ⟨ms, hp, -⟩ := path_of_run hv
  exact ⟨ms, v, hp, hs, agree_iff hp⟩

/-- An error of the listening socket stops the server, and the service stays STARTED. -/
theorem service_outlives_listener :
    ¬ ∀ (io : IoModule Member) (kernel : Kernel) (ms : List (Move (Service standard Unit) Act))
      (v : Service standard Unit), Path step { system := { io := io, kernel := kernel } } ms v →
      Agree v := by
  intro h
  have hrun : ∃ v server, run step running (startActs ++ [.ioError false]) = some v ∧
      v.system.impl.state = .started ∧ v.system.impl.ioServer = some server ∧
      server.state = .initialized := ⟨_, _, rfl, rfl, rfl, rfl⟩
  obtain ⟨v, server, hv, hs, hserver, hstopped⟩ := hrun
  obtain ⟨ms, hp, -⟩ := path_of_run hv
  obtain ⟨next, hnext, hstarted⟩ := (h _ _ ms v hp).started.mp hs
  obtain rfl := Option.some.inj (hserver.symm.trans hnext)
  cases hstopped.symm.trans hstarted

end DericRpc.Listener
