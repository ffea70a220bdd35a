import DericRpc.IoServer
import DericRpc.Service
import DericRpc.Lib.Lts

/-! RpcServiceImpl's lifecycle: init, start, stop and deInit in any order, with TcpIoServer
beneath them and whatever the IO thread does between the calls. -/
namespace DericRpc.ServiceLife
open ByteString Common Serial Connection Io IoServer Lts

/-- `clients` gives the connection of each entry of m_clients, if it has one. -/
structure ServiceImpl (P : MsgPack) (W : Type) extends Service.RpcServiceImpl P W where
  ioServer : Option TcpIoServer := none
  clients : List (UInt32 × Option TcpIoConnection) := []

/-- The service with IoModule and the kernel. -/
structure System (P : MsgPack) (W : Type) where
  impl : ServiceImpl P W := {}
  io : IoModule Member
  kernel : Kernel

structure ServiceConfig where
  serviceIp : Bytes
  servicePort : Int
  maxConnectionNumber : Int
  serialer : Bool

variable {P : MsgPack} {W : Type}

def System.setState (u : System P W) (state : ComponentState) : System P W :=
  { u with impl := { u.impl with state := state } }

theorem System.setState_of_eq {u : System P W} {state : ComponentState}
    (h : u.impl.state = state) : u.setState state = u := by
  subst h
  rfl

def init (u : System P W) (serviceConfig : ServiceConfig) : System P W × Int :=
  if u.impl.state ≠ .created then (u, -1)
  else
    let out := TcpIoServer.init {}
      ⟨serviceConfig.serviceIp, serviceConfig.servicePort, serviceConfig.maxConnectionNumber, true⟩
    if out.2 < 0 then
      ({ u with impl := { u.impl with serialer := serviceConfig.serialer, ioServer := none } }, -1)
    else
      ({ u with
        impl := { u.impl with
          serialer := serviceConfig.serialer
          ioServer := some out.1
          state := .initialized } }, out.2)

/-- Without a server the result is still -1, although the serializer is dropped. -/
def deInit (u : System P W) (refused : Bool) : Option (System P W × Int) :=
  if u.impl.state ≠ .initialized then some (u, -1)
  else match u.impl.ioServer with
    | none => some ({ u with impl := { u.impl with serialer := false } }, -1)
    | some server => (server.deInit u.io u.kernel refused).map fun out =>
        if out.res < 0 then
          (⟨{ u.impl with ioServer := some out.server }, out.io, out.kernel⟩, -1)
        else
          (⟨{ u.impl with ioServer := none, serialer := false, state := .created }, out.io,
            out.kernel⟩, out.res)

def start (u : System P W) (a : StartAnswers) : Option (System P W × Int) :=
  if u.impl.state ≠ .initialized then some (u, -1)
  else match u.impl.ioServer with
    | none => some (u, -1)
    | some server => (server.start u.io u.kernel a).map fun out =>
        let impl := { u.impl with ioServer := some out.server }
        if out.res < 0 then (⟨impl, out.io, out.kernel⟩, out.res)
        else (⟨{ impl with state := .started }, out.io, out.kernel⟩, out.res)

/-- The loop over m_clients; every client entry stops, whatever its results. -/
def stopClients (clients : List (UInt32 × Option TcpIoConnection)) (refused : Bool)
    (io : IoModule Member) (k : Kernel) : Option (IoModule Member × Kernel) :=
  clients.foldlM (fun (io, k) client =>
    (stopClientEntry client.2 io k refused).map fun (_, io', k') => (io', k')) (io, k)

/-- The state is set at the end, on whatever branch. -/
def stop (u : System P W) (refused : Bool) : Option (System P W × Int) :=
  if u.impl.state ≠ .started then some (u.setState .initialized, -1)
  else match u.impl.ioServer with
    | none => some (u.setState .initialized, 0)
    | some server =>
      (stopClients u.impl.clients refused u.io u.kernel).bind fun (io', k') =>
        (server.stop io' k' refused).map fun out =>
          (⟨{ u.impl with ioServer := some out.server, clients := [], state := .initialized },
            out.io, out.kernel⟩, out.res)

/-- Between the calls the IO thread may stop the server on an error, and clients, the table
and the kernel change in any way. -/
inductive Act where
  | init (serviceConfig : ServiceConfig)
  | deInit (refused : Bool)
  | start (answers : StartAnswers)
  | stop (refused : Bool)
  | ioError (refused : Bool)
  | other (clients : List (UInt32 × Option TcpIoConnection)) (io : IoModule Member)
      (kernel : Kernel)

def ioError (u : System P W) (refused : Bool) : Option (System P W) :=
  match u.impl.ioServer with
  | none => some u
  | some server => (server.stop u.io u.kernel refused).map fun out =>
      ⟨{ u.impl with ioServer := some out.server }, out.io, out.kernel⟩

/-- What an action does, with the result of a call. -/
def call (u : System P W) : Act → Option (System P W × Int)
  | .init serviceConfig => some (init u serviceConfig)
  | .deInit refused => deInit u refused
  | .start answers => start u answers
  | .stop refused => stop u refused
  | .ioError refused => (ioError u refused).map fun v => (v, 0)
  | .other clients io kernel => some (⟨{ u.impl with clients := clients }, io, kernel⟩, 0)

def step (u : System P W) (a : Act) : Option (System P W) := (call u a).map Prod.fst

/-- The call is refused by its first check. -/
def Refused (u : System P W) : Act → Prop
  | .init _ => u.impl.state ≠ .created
  | .deInit _ | .start _ => u.impl.state ≠ .initialized
  | .stop _ => u.impl.state ≠ .started
  | .ioError _ | .other _ _ _ => False

structure Sound (u : System P W) : Prop where
  created : u.impl.state = .created → u.impl.ioServer = none
  initialized : ComponentState.initialized.rank ≤ u.impl.state.rank →
    u.impl.ioServer.isSome = true ∧ u.impl.serialer = true

/-- From here on every init and every deInit fails, whatever is called. -/
def Stuck (u : System P W) : Prop :=
  ∀ ms v, Path step u ms v → ∀ m ∈ ms, ∀ w res, call m.pre m.act = some (w, res) →
    ((∃ config, m.act = .init config) ∨ ∃ refused, m.act = .deInit refused) → res < 0

/-- What is asked of every step: a sound state after it, and no effect of a refused call. -/
structure Lawful (m : Move (System P W) Act) : Prop where
  sound : Sound m.post
  unchanged : Refused m.pre m.act → m.post = m.pre
  notStuck : Refused m.pre m.act → ¬Stuck m.pre → ¬Stuck m.post

/-- stop is not called on a service that is not initialized. -/
def StopsInitialized (u : System P W) : Act → Prop
  | .stop _ => u.impl.state ≠ .created
  | _ => True

/-- init is given a serializer. -/
def GivesSerialer : Act → Prop
  | .init serviceConfig => serviceConfig.serialer = true
  | _ => True

/-- A server that exists is initialized, and started only while the service is. -/
structure Inv (u : System P W) : Prop where
  sound : Sound u
  server : ∀ server ∈ u.impl.ioServer,
    server.state ≠ .created ∧ (u.impl.state = .initialized → server.state = .initialized)

theorem refused_unchanged {u v : System P W} {a : Act} (h : step u a = some v)
    (hguard : StopsInitialized u a) (hr : Refused u a) : v = u := by
  cases a with
  | init config =>
    have hcall : init u config = (u, -1) := if_pos hr
    simpa [step, call, hcall] using h.symm
  | deInit refused =>
    have hcall : deInit u refused = some (u, -1) := if_pos hr
    simpa [step, call, hcall] using h.symm
  | start answers =>
    have hcall : start u answers = some (u, -1) := if_pos hr
    simpa [step, call, hcall] using h.symm
  | stop refused =>
    have hinit : u.impl.state = .initialized := by
      cases hs : u.impl.state with
      | created => exact absurd hs hguard
      | initialized => rfl
      | started => exact absurd hs hr
    have hcall : stop u refused = some (u.setState .initialized, -1) := if_pos hr
    rw [System.setState_of_eq hinit] at hcall
    simpa [step, call, hcall] using h.symm
  | ioError refused => cases hr
  | other clients io kernel => cases hr

theorem stop_created {u v : System P W} {refused : Bool} (h : step u (.stop refused) = some v)
    (hs : u.impl.state = .created) : v = u.setState .initialized := by
  have hne : u.impl.state ≠ .started := by simp [hs]
  have hcall : stop u refused = some (u.setState .initialized, -1) := if_pos hne
  simpa [step, call, hcall] using h.symm

theorem init_inv {u : System P W} {serviceConfig : ServiceConfig} (hu : u.impl.state = .created)
    (hserialer : serviceConfig.serialer = true) : Inv (init u serviceConfig).1 := by
  rw [init, if_neg (not_not.mpr hu)]
  refine ⟨⟨nofun, fun _ => ⟨rfl, hserialer⟩⟩, fun server hserver => ?_⟩
  obtain rfl := Option.some.inj hserver
  exact ⟨nofun, fun _ => rfl⟩

theorem Inv.exists_server {u : System P W} (hi : Inv u) (hu : u.impl.state ≠ .created) :
    u.impl.serialer = true ∧ ∃ server, u.impl.ioServer = some server ∧
      server.state ≠ .created ∧ (u.impl.state = .initialized → server.state = .initialized) := by
  have hrank : ComponentState.initialized.rank ≤ u.impl.state.rank := by
    cases hs : u.impl.state with
    | created => exact absurd hs hu
    | initialized => exact le_rfl
    | started => exact Nat.le_succ 1
  obtain ⟨hserver, hserialer⟩ := hi.sound.initialized hrank
  obtain ⟨server, hserver⟩ := Option.isSome_iff_exists.mp hserver
  exact ⟨hserialer, server, hserver, hi.server server hserver⟩

theorem deInit_returns {u : System P W} (hi : Inv u) (hu : u.impl.state = .initialized)
    (refused : Bool) :
    deInit u refused = some (⟨{ u.impl with
      ioServer := none, serialer := false, state := .created }, u.io, u.kernel⟩, 0) := by
  obtain ⟨-, server, hserver, -, hstate⟩ := hi.exists_server (by simp [hu])
  have hcall : server.deInit u.io u.kernel refused = some ⟨{ server with
      ip := [], port := -1, maxConnectionNumber := 0, client := false, state := .created },
      u.io, u.kernel, 0⟩ := by
    simp [TcpIoServer.deInit, hstate hu]
  simp [deInit, hu, hserver, hcall]

theorem deInit_inv {u v : System P W} {refused : Bool} {res : Int} (hi : Inv u)
    (hu : u.impl.state = .initialized) (h : deInit u refused = some (v, res)) : Inv v := by
  rw [deInit_returns hi hu] at h
  obtain ⟨rfl, -⟩ := Prod.mk.inj (Option.some.inj h)
  exact ⟨⟨fun _ => rfl, fun hrank => absurd hrank (by simp [ComponentState.rank])⟩, nofun⟩

theorem start_inv {u v : System P W} {answers : StartAnswers} {res : Int} (hi : Inv u)
    (hu : u.impl.state = .initialized) (h : start u answers = some (v, res)) : Inv v := by
  obtain ⟨hserialer, server, hserver, -, hstate⟩ := hi.exists_server (by simp [hu])
  rw [start, if_neg (not_not.mpr hu), hserver] at h
  obtain ⟨out, hout, hv⟩ := Option.map_eq_some_iff.mp h
  rcases start_state hout with ⟨hres, hsame⟩ | ⟨hres, hstarted⟩
  · rw [if_pos hres] at hv
    obtain ⟨rfl, -⟩ := Prod.mk.inj hv
    refine ⟨⟨fun hc => absurd (hu.symm.trans hc) nofun, fun _ => ⟨rfl, hserialer⟩⟩, ?_⟩
    intro next hnext
    obtain rfl := Option.some.inj hnext
    rw [hsame, hstate hu]
    exact ⟨nofun, fun _ => rfl⟩
  · rw [if_neg (not_lt.mpr hres)] at hv
    obtain ⟨rfl, -⟩ := Prod.mk.inj hv
    refine ⟨⟨nofun, fun _ => ⟨rfl, hserialer⟩⟩, fun next hnext => ?_⟩
    obtain rfl := Option.some.inj hnext
    exact ⟨by simp [hstarted], nofun⟩

theorem stop_inv {u v : System P W} {refused : Bool} {res : Int} (hi : Inv u)
    (hu : u.impl.state = .started) (h : stop u refused = some (v, res)) : Inv v := by
  obtain ⟨hserialer, server, hserver, hcreated, -⟩ := hi.exists_server (by simp [hu])
  rw [stop, if_neg (not_not.mpr hu), hserver] at h
  obtain ⟨⟨io', k'⟩, -, hstop⟩ := Option.bind_eq_some_iff.mp h
  obtain ⟨out, hout, hv⟩ := Option.map_eq_some_iff.mp hstop
  obtain ⟨rfl, -⟩ := Prod.mk.inj hv
  refine ⟨⟨nofun, fun _ => ⟨rfl, hserialer⟩⟩, fun next hnext => ?_⟩
  obtain rfl := Option.some.inj hnext
  have hinit : out.server.state = .initialized := by
    rw [stop_state hout]
    cases hs : server.state with
    | created => exact absurd hs hcreated
    | initialized => rfl
    | started => rfl
  exact ⟨by simp [hinit], fun _ => hinit⟩

/-- The IO thread stops a server without telling the service. -/
theorem ioError_inv {u v : System P W} {refused : Bool} (hi : Inv u)
    (h : ioError u refused = some v) : Inv v := by
  cases hserver : u.impl.ioServer with
  | none =>
    simp only [ioError, hserver] at h
    rwa [← Option.some.inj h]
  | some server =>
    simp only [ioError, hserver] at h
    obtain ⟨out, hout, rfl⟩ := Option.map_eq_some_iff.mp h
    obtain ⟨hcreated, hstate⟩ := hi.server server hserver
    refine ⟨⟨fun hc => ?_, fun hrank => ⟨rfl, (hi.sound.initialized hrank).2⟩⟩, ?_⟩
    · have hnone := hi.sound.created hc
      simp [hserver] at hnone
    · intro next hnext
      obtain rfl := Option.some.inj hnext
      rw [stop_state hout]
      split_ifs with hs
      · exact ⟨nofun, fun _ => rfl⟩
      · exact ⟨hcreated, hstate⟩

theorem step_inv {u v : System P W} {a : Act} (hi : Inv u) (hguard : StopsInitialized u a)
    (hserialer : GivesSerialer a) (h : step u a = some v) : Inv v := by
  by_cases hr : Refused u a
  · rwa [refused_unchanged h hguard hr]
  obtain ⟨⟨w, res⟩, hcall, rfl⟩ := Option.map_eq_some_iff.mp h
  cases a with
  | init config =>
    obtain rfl : (init u config).1 = w := congrArg Prod.fst (Option.some.inj hcall)
    exact init_inv (not_not.mp hr) hserialer
  | deInit refused => exact deInit_inv hi (not_not.mp hr) hcall
  | start answers => exact start_inv hi (not_not.mp hr) hcall
  | stop refused => exact stop_inv hi (not_not.mp hr) hcall
  | ioError refused =>
    obtain ⟨w', hw, hv⟩ := Option.map_eq_some_iff.mp hcall
    obtain ⟨rfl, -⟩ := Prod.mk.inj hv
    exact ioError_inv hi hw
  | other clients io kernel =>
    obtain ⟨rfl, -⟩ := Prod.mk.inj (Option.some.inj hcall)
    exact ⟨⟨hi.sound.created, hi.sound.initialized⟩, hi.server⟩

/-- No call changes the table of functions, and a service that is started was started by
this call, or was before it and is not being stopped. -/
theorem call_frame {u v : System P W} {a : Act} {res : Int} (h : call u a = some (v, res)) :
    v.impl.functions = u.impl.functions ∧ (v.impl.state = .started →
      (∃ answers, a = .start answers ∧ 0 ≤ res) ∨
      (u.impl.state = .started ∧ ∀ refused, a ≠ .stop refused)) := by
  cases a with
  | init config =>
    obtain rfl : (init u config).1 = v := congrArg Prod.fst (Option.some.inj h)
    unfold init
    split_ifs with hs
    · exact ⟨rfl, fun hv => .inr ⟨hv, nofun⟩⟩
    · exact ⟨rfl, nofun⟩
  | deInit refused =>
    simp only [call, deInit] at h
    split_ifs at h
    · obtain ⟨rfl, -⟩ := Prod.mk.inj (Option.some.inj h)
      exact ⟨rfl, fun hv => .inr ⟨hv, nofun⟩⟩
    · split at h
      · obtain ⟨rfl, -⟩ := Prod.mk.inj (Option.some.inj h)
        exact ⟨rfl, fun hv => .inr ⟨hv, nofun⟩⟩
      · obtain ⟨out, -, hv⟩ := Option.map_eq_some_iff.mp h
        split_ifs at hv <;> obtain ⟨rfl, -⟩ := Prod.mk.inj hv
        · exact ⟨rfl, fun hv => .inr ⟨hv, nofun⟩⟩
        · exact ⟨rfl, nofun⟩
  | start answers =>
    simp only [call, start] at h
    split_ifs at h
    · obtain ⟨rfl, -⟩ := Prod.mk.inj (Option.some.inj h)
      exact ⟨rfl, fun hv => .inr ⟨hv, nofun⟩⟩
    · split at h
      · obtain ⟨rfl, -⟩ := Prod.mk.inj (Option.some.inj h)
        exact ⟨rfl, fun hv => .inr ⟨hv, nofun⟩⟩
      · obtain ⟨out, -, hv⟩ := Option.map_eq_some_iff.mp h
        split_ifs at hv with hres <;> obtain ⟨rfl, rfl⟩ := Prod.mk.inj hv
        · exact ⟨rfl, fun hv => .inr ⟨hv, nofun⟩⟩
        · exact ⟨rfl, fun _ => .inl ⟨answers, rfl, not_lt.mp hres⟩⟩
  | stop refused =>
    simp only [call, stop] at h
    split_ifs at h
    · obtain ⟨rfl, -⟩ := Prod.mk.inj (Option.some.inj h)
      exact ⟨rfl, nofun⟩
    · split at h
      · obtain ⟨rfl, -⟩ := Prod.mk.inj (Option.some.inj h)
        exact ⟨rfl, nofun⟩
      · obtain ⟨⟨io', k'⟩, -, hstop⟩ := Option.bind_eq_some_iff.mp h
        obtain ⟨out, -, hv⟩ := Option.map_eq_some_iff.mp hstop
        obtain ⟨rfl, -⟩ := Prod.mk.inj hv
        exact ⟨rfl, nofun⟩
  | ioError refused =>
    obtain ⟨w, hw, hv⟩ := Option.map_eq_some_iff.mp h
    obtain ⟨rfl, -⟩ := Prod.mk.inj hv
    unfold ioError at hw
    split at hw
    · rw [← Option.some.inj hw]
      exact ⟨rfl, fun hv => .inr ⟨hv, nofun⟩⟩
    · obtain ⟨out, -, rfl⟩ := Option.map_eq_some_iff.mp hw
      exact ⟨rfl, fun hv => .inr ⟨hv, nofun⟩⟩
  | other clients io kernel =>
    obtain ⟨rfl, -⟩ := Prod.mk.inj (Option.some.inj h)
    exact ⟨rfl, fun hv => .inr ⟨hv, nofun⟩⟩

/-- INITIALIZED without a server. -/
structure Stranded (u : System P W) : Prop where
  state : u.impl.state = .initialized
  ioServer : u.impl.ioServer = none

theorem Stranded.deInit {u : System P W} (hu : Stranded u) (refused : Bool) :
    ServiceLife.deInit u refused =
      some ({ u with impl := { u.impl with serialer := false } }, -1) := by
  simp [ServiceLife.deInit, hu.state, hu.ioServer]

theorem Stranded.step {u v : System P W} {a : Act} (hu : Stranded u)
    (h : ServiceLife.step u a = some v) : Stranded v := by
  obtain ⟨⟨w, res⟩, hcall, rfl⟩ := Option.map_eq_some_iff.mp h
  cases a with
  | init config =>
    have hinit : init u config = (u, -1) := if_pos (by simp [hu.state])
    obtain rfl : u = w := by simpa [call, hinit] using congrArg (Option.map Prod.fst) hcall
    exact hu
  | deInit refused =>
    rw [call, hu.deInit] at hcall
    obtain ⟨rfl, -⟩ := Prod.mk.inj (Option.some.inj hcall)
    exact ⟨hu.state, hu.ioServer⟩
  | start answers =>
    obtain ⟨rfl, -⟩ : u = w ∧ -1 = res := by
      simpa [call, start, hu.state, hu.ioServer] using hcall
    exact hu
  | stop refused =>
    obtain ⟨rfl, -⟩ : u.setState .initialized = w ∧ -1 = res := by
      simpa [call, stop, hu.state] using hcall
    exact ⟨rfl, hu.ioServer⟩
  | ioError refused =>
    obtain ⟨rfl, -⟩ : u = w ∧ 0 = res := by
      simpa [call, ioError, hu.ioServer] using hcall
    exact hu
  | other clients io kernel =>
    obtain ⟨rfl, -⟩ := Prod.mk.inj (Option.some.inj hcall)
    exact ⟨hu.state, hu.ioServer⟩

theorem Stranded.stuck {u : System P W} (hu : Stranded u) : Stuck u := by
  intro ms v hp m hm w res hcall hact
  obtain ⟨before, -, -, hbefore, -⟩ := hp.split hm
  have hpre : Stranded m.pre := hbefore.invariant hu fun _ _ _ hi hs => hi.step hs
  rcases hact with ⟨config, ha⟩ | ⟨refused, ha⟩
  · have hinit : init m.pre config = (m.pre, -1) := if_pos (by simp [hpre.state])
    obtain ⟨-, rfl⟩ : m.pre = w ∧ -1 = res := by simpa [ha, call, hinit] using hcall
    exact Int.negSucc_lt_zero 0
  · obtain ⟨-, rfl⟩ : _ = w ∧ -1 = res := by simpa [ha, call, hpre.deInit] using hcall
    exact Int.negSucc_lt_zero 0

theorem inv_new (io : IoModule Member) (kernel : Kernel) :
    Inv (P := P) (W := W) { io := io, kernel := kernel } :=
  ⟨⟨fun _ => rfl, fun hrank => absurd hrank (Nat.not_succ_le_zero 0)⟩, nofun⟩

/-- In every run of a new service: every step is lawful exactly when stop is never called on
a service that is not initialized. -/
theorem lawful_iff {io : IoModule Member} {kernel : Kernel} {ms : List (Move (System P W) Act)}
    {v : System P W} (h : Path step { io := io, kernel := kernel } ms v)
    (hserialer : ∀ m ∈ ms, GivesSerialer m.act) :
    (∀ m ∈ ms, Lawful m) ↔ ∀ m ∈ ms, StopsInitialized m.pre m.act := by
  constructor
  · intro hall m hm
    obtain ⟨-, -, -, -, hstep⟩ := h.split hm
    obtain ⟨u, a, w⟩ := m
    cases a with
    | stop refused =>
      intro (hcreated : u.impl.state = .created)
      have hpost : w = u.setState .initialized := stop_created hstep hcreated
      have hkept : w = u := (hall _ hm).unchanged (by simp [Refused, hcreated])
      have hstate : u.impl.state = .initialized := by
        rw [← hkept, hpost]
        rfl
      cases hcreated.symm.trans hstate
    | _ => trivial
  · intro hguard m hm
    have hboth := h.guarded_move (I := Inv)
      (G := fun u a => StopsInitialized u a ∧ GivesSerialer a) (inv_new io kernel)
      (fun u a w hi hg hs => step_inv hi hg.1 hg.2 hs)
      (fun x hx => ⟨hguard x hx, hserialer x hx⟩) hm
    have hkept (hr : Refused m.pre m.act) : m.post = m.pre :=
      refused_unchanged hboth.2.2 (hguard m hm) hr
    exact ⟨hboth.2.1.sound, hkept, fun hr hpre => by rwa [hkept hr]⟩

theorem lawful_iff_init :
    ∃ (ms : List (Move (System standard Unit) Act)) (v : System standard Unit),
      Path step { io := {}, kernel := {} } ms v ∧ v.impl.state = .initialized ∧
      ((∀ m ∈ ms, Lawful m) ↔ ∀ m ∈ ms, StopsInitialized m.pre m.act) := by
  have hp : Path step _ _ (init (P := standard) (W := Unit) { io := {}, kernel := {} }
      ⟨[], 80, 5, true⟩).1 := Path.nil.snoc (a := .init ⟨[], 80, 5, true⟩) rfl
  refine ⟨_, _, hp, rfl, lawful_iff hp fun m hm => ?_⟩
  obtain rfl := List.mem_singleton.mp hm
  rfl

/-- stop on a new service is refused, and strands it. -/
theorem stop_strands : ∃ v : System standard Unit,
    Path step { io := {}, kernel := {} } [⟨{ io := {}, kernel := {} }, .stop false, v⟩] v ∧
      Refused (P := standard) (W := Unit) { io := {}, kernel := {} } (.stop false) ∧
      ¬Sound v ∧ Stuck v := by
  refine ⟨System.setState { io := {}, kernel := {} } .initialized, ?_, nofun, ?_, ?_⟩
  · exact Path.nil.snoc rfl
  · intro hsound
    cases (hsound.initialized le_rfl).1
  · exact Stranded.stuck ⟨rfl, rfl⟩

end DericRpc.ServiceLife
