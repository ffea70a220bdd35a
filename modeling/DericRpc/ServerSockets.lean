import DericRpc.Lib.Custody
import DericRpc.Sockets

/-! Who can close a descriptor of the process: the client connection that it was connected for, and
the listener. An accepted socket is nobody's, and stays open for good. -/
namespace DericRpc.ServerSockets
open Common Connection Custody Io IoServer Lts Sockets

/-- A started client connection has its socket, and a started TcpIoServer (`none`) its own: their
stop closes them. -/
def Holds (u : Process) : Option Nat → Int → Prop
  | none, fd => u.server.state = .started ∧ u.server.socketFd = fd
  | some n, fd => ∃ o, u.objects n = some o ∧ o.conn.state = .started ∧
      o.conn.ioMode = .client ∧ o.conn.socketFd = fd

def IsOpen (u : Process) (fd : Int) : Prop := u.kernel.isOpen fd = true

/-- The socket that accept has given, where onConnectRequest leaves it open. -/
def accepted (m : Move Process Act) : Option Int :=
  match m.act with
  | .connectRequest _ sock _ _ _ =>
    if m.pre.kernel.isOpen sock = false ∧ m.post.kernel.isOpen sock = true then some sock else none
  | _ => none

variable {u v w : Process} {fd sock : Int} {n : Nat}

theorem stop_state (c : TcpIoConnection) : (Connection.stop c).conn.state ≠ .started := by
  unfold Connection.stop
  split_ifs with hstate
  · exact hstate
  all_goals exact nofun

theorem mem_closed {c : TcpIoConnection} (h : fd ∈ (Connection.stop c).closed) :
    c.state = .started ∧ c.ioMode = .client ∧ c.socketFd = fd := by
  unfold Connection.stop at h
  split_ifs at h with hstate hzero hmode
  · cases h
  · cases h
  · exact ⟨not_not.mp hstate, hmode, (List.mem_singleton.mp h).symm⟩
  · cases h

theorem closeAll_frame (u : Process) (fds : List Int) : (closeAll u fds).objects = u.objects ∧
    (closeAll u fds).server = u.server ∧
    ∀ fd, fd ∉ fds → (closeAll u fds).kernel.isOpen fd = u.kernel.isOpen fd := by
  induction fds generalizing u with
  | nil => exact ⟨rfl, rfl, fun _ _ => rfl⟩
  | cons x fds ih =>
    obtain ⟨hobjects, hserver, hopen⟩ := ih (closeFd u x)
    refine ⟨hobjects, hserver, fun fd hfd => ?_⟩
    obtain ⟨hx, hrest⟩ := not_or.mp (List.mem_cons.not.mp hfd)
    exact (hopen fd hrest).trans (Function.update_of_ne hx ..)

theorem closeAll_io (u : Process) (fds : List Int) : (closeAll u fds).io = u.io := by
  induction fds generalizing u with
  | nil => rfl
  | cons x fds ih => exact ih (closeFd u x)

theorem addIoMember_table {io io' : IoModule Member} {k k' : Kernel} {m m' : Member} {fd' res : Int}
    {refused : Bool} (hfd : 0 ≤ fd) (h : addIoMember io k (some (m, fd)) refused = some (io', k', res))
    (hm : io'.ioMembers fd' = some m') : fd' = fd ∨ io.ioMembers fd' = some m' := by
  obtain ⟨-, -, rfl, -⟩ | ⟨-, rfl, -⟩ := addIoMember_cases hfd h
  · exact .inr hm
  · by_cases hne : fd' = fd
    · exact .inl hne
    · exact .inr ((Function.update_of_ne hne ..).symm.trans hm)

theorem releases_of_same (hserver : v.server = u.server)
    (hobjects : ∀ n o, v.objects n = some o → o.conn.state = .started → o.conn.ioMode = .client →
      ∃ o', u.objects n = some o' ∧ o'.conn.state = .started ∧ o'.conn.ioMode = .client ∧
        o'.conn.socketFd = o.conn.socketFd)
    (hopen : ∀ fd, IsOpen u fd → IsOpen v fd) : Releases Holds IsOpen u v where
  held h fd hv := by
    cases h with
    | none => exact ⟨hserver ▸ hv.1, hserver ▸ hv.2⟩
    | some n =>
      obtain ⟨o, ho, hstate, hmode, hfd⟩ := hv
      obtain ⟨o', ho', hstate', hmode', hfd'⟩ := hobjects n o ho hstate hmode
      exact ⟨o', ho', hstate', hmode', hfd'.trans hfd⟩
  opened fd hu := .inl (hopen fd hu)

/-- The stop of a connection closes at most its own socket, and leaves it held by nobody. -/
theorem releases_stop {o : ConnObject} (ho : u.objects n = some o)
    (hobjects : v.objects = Function.update u.objects n
      (some { o with conn := (Connection.stop o.conn).conn }))
    (hserver : v.server = u.server)
    (hopen : ∀ fd, fd ∉ (Connection.stop o.conn).closed → IsOpen u fd → IsOpen v fd) :
    Releases Holds IsOpen u v := by
  have hstopped (fd : Int) : ¬Holds v (some n) fd := by
    rintro ⟨o', ho', hstate, -⟩
    rw [hobjects, Function.update_self] at ho'
    obtain rfl := Option.some.inj ho'
    exact stop_state o.conn hstate
  refine ⟨fun h fd hv => ?_, fun fd hu => ?_⟩
  · cases h with
    | none => exact ⟨hserver ▸ hv.1, hserver ▸ hv.2⟩
    | some m =>
      by_cases hm : m = n
      · subst hm
        exact absurd hv (hstopped fd)
      · obtain ⟨o', ho', hrest⟩ := hv
        rw [hobjects, Function.update_of_ne hm] at ho'
        exact ⟨o', ho', hrest⟩
  · by_cases hfd : fd ∈ (Connection.stop o.conn).closed
    · obtain ⟨hstate, hmode, hsocket⟩ := mem_closed hfd
      exact .inr ⟨some n, ⟨o, ho, hstate, hmode, hsocket⟩, hstopped fd⟩
    · exact .inl (hopen fd hfd hu)

theorem stopEntry_releases {o : ConnObject} {refused : Bool} (ho : u.objects n = some o)
    (h : stopEntry u n o refused = some v) : Releases Holds IsOpen u v := by
  obtain ⟨⟨io, k, res⟩, hremove, rfl⟩ := Option.map_eq_some_iff.mp h
  obtain ⟨-, hk, -⟩ := removeIoMember_cases hremove
  obtain ⟨hobjects, hserver, hopen⟩ := closeAll_frame
    ((u.setIo io k).setObject n { o with conn := (Connection.stop o.conn).conn })
    (Connection.stop o.conn).closed
  refine releases_stop ho hobjects hserver fun fd hfd hu => (hopen fd hfd).trans ?_
  exact (congrFun hk fd).trans hu

theorem stopClients_releases {order : List (Nat × Bool)} (h : stopClients u order = some v) :
    Releases Holds IsOpen u v := by
  induction order generalizing u with
  | nil =>
    obtain rfl := Option.some.inj h
    exact .refl u
  | cons c rest ih =>
    obtain ⟨n, refused⟩ := c
    obtain ⟨o, ho, hbind⟩ := Option.bind_eq_some_iff.mp h
    obtain ⟨w, hstop, hrest⟩ := Option.bind_eq_some_iff.mp hbind
    exact (stopEntry_releases ho hstop).trans (ih hrest)

theorem stopServer_releases {refused : Bool} (h : stopServer u refused = some v) :
    Releases Holds IsOpen u v := by
  obtain ⟨out, hout, rfl⟩ := Option.map_eq_some_iff.mp h
  have hdown := stop_down hout
  have hopen : ∀ fd, u.kernel.isOpen fd = true →
      out.kernel.isOpen fd = true ∨ Holds u none fd := by
    intro fd hu
    cases stop_step hout with
    | skipped _ => exact .inl hu
    | noEntry hs _ =>
      by_cases hfd : fd = u.server.socketFd
      · exact .inr ⟨hs, hfd.symm⟩
      · exact .inl (close_isOpen hfd hu)
    | removed x io k res hs _ hremove =>
      obtain ⟨-, hk, -⟩ := removeIoMember_cases hremove
      by_cases hfd : fd = u.server.socketFd
      · exact .inr ⟨hs, hfd.symm⟩
      · exact .inl (close_isOpen hfd ((congrFun hk fd).trans hu))
  refine ⟨fun h fd hv => ?_, fun fd hu => (hopen fd hu).imp_right fun hheld => ?_⟩
  · cases h with
    | none => exact absurd hv.1 hdown
    | some n => exact hv
  · exact ⟨none, hheld, fun hv => hdown hv.1⟩

theorem stopService_releases {order : List (Nat × Bool)} {refused : Bool}
    (h : stopService u order refused = some v) : Releases Holds IsOpen u v := by
  -- neither the state nor m_clients says who holds what
  have hframe {u : Process} (state : ComponentState) (clients : List (UInt32 × Nat)) :
      Releases Holds IsOpen u { u with state := state, clients := clients } :=
    releases_of_same rfl (fun n o ho hstate hmode => ⟨o, ho, hstate, hmode, rfl⟩) fun _ hu => hu
  unfold stopService at h
  split_ifs at h
  · obtain rfl := Option.some.inj h
    exact hframe .initialized u.clients
  · obtain ⟨w, hclients, hmap⟩ := Option.bind_eq_some_iff.mp h
    obtain ⟨x, hserver, rfl⟩ := Option.map_eq_some_iff.mp hmap
    have hstopped := (stopClients_releases hclients).trans (hframe w.state [])
    exact (hstopped.trans (stopServer_releases hserver)).trans (hframe .initialized x.clients)

theorem disconnect_releases {j : Nat} (h : disconnect u j = some v) :
    Releases Holds IsOpen u v := by
  unfold disconnect at h
  split at h
  · obtain rfl := Option.some.inj h
    exact .refl u
  · next n _ =>
    obtain ⟨o, ho, hv⟩ := Option.map_eq_some_iff.mp h
    split_ifs at hv
    · obtain rfl := hv
      exact .refl u
    · obtain ⟨hobjects, hserver, hopen⟩ := closeAll_frame
        { u.setObject n { o with conn := (Connection.stop o.conn).conn } with
          ioConnection := Function.update u.ioConnection j none } (Connection.stop o.conn).closed
      rw [hv] at hobjects hserver hopen
      exact releases_stop ho hobjects hserver fun fd hfd hu => (hopen fd hfd).trans hu

theorem releases_read {o : ConnObject} {c : TcpIoConnection} (ho : u.objects n = some o)
    (hstate : c.state = o.conn.state) (hmode : c.ioMode = o.conn.ioMode)
    (hfd : c.socketFd = o.conn.socketFd) :
    Releases Holds IsOpen u (u.setObject n { o with conn := c }) := by
  refine releases_of_same rfl (fun m o' ho' hs hm => ?_) fun _ hu => hu
  by_cases hmn : m = n
  · subst hmn
    obtain rfl : { o with conn := c } = o' := by simpa [Process.setObject] using ho'
    exact ⟨o, ho, hstate.symm.trans hs, hmode.symm.trans hm, hfd.symm⟩
  · exact ⟨o', by simpa [Process.setObject, hmn] using ho', hs, hm, rfl⟩

theorem event_releases {error refused : Bool} {incoming : Incoming} {errors : RecvErrors}
    (h : dispatchEvent u n error incoming errors refused = some v) :
    Releases Holds IsOpen u v := by
  obtain ⟨o, c, call, ho, -, hstate, hmode, hfd, ⟨-, rfl⟩ | ⟨-, -, hclose⟩⟩ := dispatchEvent_cases h
  · exact releases_read ho hstate hmode hfd
  · refine (releases_read ho hstate hmode hfd).trans ?_
    unfold handleEvent at hclose
    split at hclose
    · obtain ⟨w, hstop, rfl⟩ := Option.map_eq_some_iff.mp hclose
      refine (stopEntry_releases (Function.update_self ..) hstop).trans ?_
      exact releases_of_same rfl (fun m o' ho' hs hm => ⟨o', ho', hs, hm, rfl⟩) fun _ hu => hu
    · obtain rfl := Option.some.inj hclose
      exact releases_of_same rfl (fun m o' ho' hs hm => ⟨o', ho', hs, hm, rfl⟩) fun _ hu => hu

/-- The listener's new socket is open and was not. -/
theorem startService_passes {a : StartAnswers}
    (hfree : 0 ≤ a.sock → u.kernel.isOpen a.sock = false) (h : startService u a = some v) :
    Passes Holds IsOpen u v := by
  by_cases hready : u.state ≠ .initialized
  · rw [startService, if_pos hready] at h
    obtain rfl := Option.some.inj h
    exact (Releases.refl u).passes
  rw [startService, if_neg hready] at h
  obtain ⟨out, hout, rfl⟩ := Option.map_eq_some_iff.mp h
  obtain ⟨-, rfl⟩ | ⟨hs, -, -, -, hkernel, hstarted⟩ := start_cases hout
  · refine Releases.passes (releases_of_same rfl (fun m o ho hs hm => ?_) fun _ hu => hu)
    exact ⟨o, ho, hs, hm, rfl⟩
  · have hne {fd : Int} (hopen : IsOpen u fd) (hsock : 0 ≤ a.sock) : fd ≠ a.sock := by
      rintro rfl
      cases (hfree hsock).symm.trans hopen
    refine ⟨fun j fd hv => ?_, fun fd hopen => .inl (hkernel fd (hne hopen) hopen)⟩
    cases j with
    | some n => exact .inl hv
    | none =>
      obtain ⟨hsock, hfd, -, hopen, -⟩ := hstarted hv.1
      obtain rfl : a.sock = fd := hfd.symm.trans hv.2
      refine .inr ⟨fun hold => hne hold hsock rfl, hopen, fun i hi => ?_⟩
      cases i with
      | none => exact .inr rfl
      | some n => exact .inl hi

/-- The connection of an accepted socket is no client's. -/
theorem connectRequest_releases {created alive refused : Bool}
    (hfree : 0 ≤ sock → u.kernel.isOpen sock = false)
    (h : onConnectRequest u sock created alive refused = some v) : Releases Holds IsOpen u v := by
  have hserver {o : ConnObject} (ho : o.conn.ioMode = .server)
      (hobjects : v.objects = Function.update u.objects u.ledger.count (some o))
      (hv : v.server = u.server) (hopen : ∀ fd, IsOpen u fd → IsOpen v fd) :
      Releases Holds IsOpen u v := by
    refine releases_of_same hv (fun n o' ho' hs hm => ?_) hopen
    rw [hobjects] at ho'
    by_cases hn : n = u.ledger.count
    · subst hn
      rw [Function.update_self] at ho'
      obtain rfl := Option.some.inj ho'
      cases ho.symm.trans hm
    · exact ⟨o', (Function.update_of_ne hn ..).symm.trans ho', hs, hm, rfl⟩
  obtain ⟨rfl, -⟩ | ⟨⟨-, -, hsock⟩, ⟨-, rfl⟩ | ⟨-, -, rfl⟩ | ⟨-, -, io, k, res, hadd, rfl⟩⟩ :=
    onConnectRequest_cases h
  · exact .refl v
  · exact releases_of_same rfl (fun n o ho hs hm => ⟨o, ho, hs, hm, rfl⟩) fun _ => openFd_isOpen
  · refine hserver (o := ⟨setIoFd { ioClient := true } sock, .entry (u.clientIndex + 1)⟩) rfl rfl rfl
      fun fd hu => close_isOpen ?_ (openFd_isOpen hu)
    rintro rfl
    cases (hfree hsock).symm.trans hu
  · refine hserver rfl rfl rfl fun fd hu => ?_
    exact (congrFun (addIoMember_isOpen hadd) fd).trans (openFd_isOpen hu)

/-- What a connect leaves: nothing but closed numbers, a connection that epoll has refused, or one
over the new socket. -/
theorem connect_cases {j : Nat} {port : Int} {connected refused : Bool}
    (h : connect u j port sock connected refused = some v) :
    (v.server = u.server ∧ v.objects = u.objects ∧ v.io = u.io ∧
      ∀ fd, (0 ≤ port → 0 ≤ sock → fd ≠ sock) → IsOpen u fd → IsOpen v fd) ∨
    (0 ≤ port ∧ 0 ≤ sock) ∧ v.server = u.server ∧
      (∀ fd m, v.io.ioMembers fd = some m → fd = sock ∨ u.io.ioMembers fd = some m) ∧
      (∀ fd, fd ≠ sock → IsOpen u fd → IsOpen v fd) ∧
      ∃ o : ConnObject, v.objects = Function.update u.objects u.ledger.count (some o) ∧
        (o.conn.state ≠ .started ∨
          o.conn.ioMode = .client ∧ o.conn.socketFd = sock ∧ IsOpen v sock) := by
  by_cases hgood : 0 ≤ port ∧ 0 ≤ sock ∧ connected = true
  · obtain ⟨hport, hsock, rfl⟩ := hgood
    have hnil (u : Process) : closeAll u [] = u := rfl
    unfold connect at h
    simp only [startConnect_ok hport hsock, hport, hsock, and_self, if_true, Int.reduceNeg,
      lt_self_iff_false, if_false, hnil] at h
    obtain ⟨⟨io, k, res⟩, hadd, hv⟩ := Option.map_eq_some_iff.mp h
    have hk : k.isOpen = (u.kernel.openFd sock).isOpen := addIoMember_isOpen hadd
    have hopened (fd : Int) (hu : IsOpen u fd) : k.isOpen fd = true :=
      (congrFun hk fd).trans (openFd_isOpen hu)
    have htable (fd : Int) (m : Member) (hm : io.ioMembers fd = some m) :
        fd = sock ∨ u.io.ioMembers fd = some m := addIoMember_table hsock hadd hm
    dsimp only at hv
    split_ifs at hv
    · obtain ⟨hobjects, hserver, hopen⟩ := closeAll_frame
        (((openFd u sock).setIo io k).setObject u.ledger.count
          ⟨(Connection.stop (connectedTo sock)).conn, .client j⟩)
        (Connection.stop (connectedTo sock)).closed
      subst hv
      refine .inr ⟨⟨hport, hsock⟩, hserver, fun fd m hm => htable fd m ?_,
        fun fd hne hu => (hopen fd ?_).trans (hopened fd hu), ⟨_, hobjects, .inl (stop_state _)⟩⟩
      · rwa [closeAll_io] at hm
      · exact fun hmem => hne (mem_closed hmem).2.2.symm
    · subst hv
      refine .inr ⟨⟨hport, hsock⟩, rfl, htable, fun fd _ hu => hopened fd hu,
        ⟨_, rfl, .inr ⟨rfl, rfl, ?_⟩⟩⟩
      exact (congrFun hk sock).trans (by simp [Kernel.openFd])
  · have hres := startConnect_fails hgood
    have hclosed (fd : Int)
        (hfd : fd ∈ (startConnect { ioClient := true } port sock connected).closed) :
        0 ≤ port ∧ 0 ≤ sock ∧ fd = sock := by
      unfold startConnect at hfd
      split_ifs at hfd <;> (simp at hfd; try omega)
    unfold connect at h
    simp only [hres, Int.reduceNeg, Int.reduceLT, if_true] at h
    obtain rfl := Option.some.inj h
    obtain ⟨hobjects, hserver, hopen⟩ := closeAll_frame
      (if 0 ≤ port ∧ 0 ≤ sock then openFd u sock else u)
      (startConnect { ioClient := true } port sock connected).closed
    refine .inl ⟨hserver.trans ?_, hobjects.trans ?_, (closeAll_io ..).trans ?_, fun fd hne hu => ?_⟩
    · split_ifs <;> rfl
    · split_ifs <;> rfl
    · split_ifs <;> rfl
    · have hfd : fd ∉ (startConnect { ioClient := true } port sock connected).closed := by
        intro hmem
        obtain ⟨hport, hsock, hsame⟩ := hclosed fd hmem
        exact hne hport hsock hsame
      refine (hopen fd hfd).trans ?_
      split_ifs
      · exact openFd_isOpen hu
      · exact hu

theorem connect_passes {j : Nat} {port : Int} {connected refused : Bool}
    (hfree : 0 ≤ port → 0 ≤ sock → u.kernel.isOpen sock = false)
    (h : connect u j port sock connected refused = some v) : Passes Holds IsOpen u v := by
  have hne {fd : Int} (hu : IsOpen u fd) (hport : 0 ≤ port) (hsock : 0 ≤ sock) : fd ≠ sock := by
    rintro rfl
    cases (hfree hport hsock).symm.trans hu
  obtain ⟨hserver, hobjects, -, hopen⟩ | ⟨⟨hport, hsock⟩, hserver, -, hopen, o, hobjects, hnew⟩ :=
    connect_cases h
  · refine Releases.passes (releases_of_same hserver (fun n o ho hs hm => ?_) fun fd hu => ?_)
    · exact ⟨o, hobjects ▸ ho, hs, hm, rfl⟩
    · exact hopen fd (hne hu) hu
  · -- the only holder that is new is the new connection, of the new socket
    have hheld (i : Option Nat) (fd : Int) (hv : Holds v i fd) :
        Holds u i fd ∨ i = some u.ledger.count ∧ fd = sock ∧ IsOpen v sock := by
      cases i with
      | none => exact .inl ⟨hserver ▸ hv.1, hserver ▸ hv.2⟩
      | some n =>
        obtain ⟨o', ho', hstate, hmode, hfd⟩ := hv
        rw [hobjects] at ho'
        by_cases hn : n = u.ledger.count
        · subst hn
          rw [Function.update_self] at ho'
          obtain rfl := Option.some.inj ho'
          obtain hnot | ⟨-, hsocket, hopened⟩ := hnew
          · exact absurd hstate hnot
          · exact .inr ⟨rfl, hfd.symm.trans hsocket, hopened⟩
        · exact .inl ⟨o', (Function.update_of_ne hn ..).symm.trans ho', hstate, hmode, hfd⟩
    refine ⟨fun i fd hv => ?_, fun fd hu => .inl (hopen fd (hne hu hport hsock) hu)⟩
    obtain hold | ⟨rfl, rfl, hopened⟩ := hheld i fd hv
    · exact .inl hold
    · refine .inr ⟨fun hu => hne hu hport hsock rfl, hopened, fun i hi => ?_⟩
      exact (hheld i fd hi).imp_right And.left

theorem step_passes {a : Act} (h : step u a = some v) : Passes Holds IsOpen u v := by
  cases a with
  | startService a =>
    obtain ⟨hfree, h⟩ := Option.ite_none_right_eq_some.mp h
    exact startService_passes hfree h
  | stopService order refused =>
    obtain ⟨-, h⟩ := Option.ite_none_right_eq_some.mp h
    exact (stopService_releases h).passes
  | connectRequest fd sock created alive refused =>
    obtain ⟨⟨-, hfree⟩, h⟩ := Option.ite_none_right_eq_some.mp h
    split at h
    · exact (connectRequest_releases hfree h).passes
    · cases h
  | listenerError fd refused =>
    obtain ⟨-, h⟩ := Option.ite_none_right_eq_some.mp h
    split at h
    · exact (stopServer_releases h).passes
    · cases h
  | connect j port sock connected refused =>
    obtain ⟨hfree, h⟩ := Option.ite_none_right_eq_some.mp h
    exact connect_passes hfree h
  | disconnect j => exact (disconnect_releases h).passes
  | event fd error incoming errors refused =>
    obtain ⟨-, h⟩ := Option.ite_none_right_eq_some.mp h
    split at h
    · exact (event_releases h).passes
    · cases h

theorem fresh_sound (h : Fresh u) : Sound Holds IsOpen u := by
  have hnone (i : Option Nat) (fd : Int) : ¬Holds u i fd := by
    cases i with
    | none => exact fun hv => h.server hv.1
    | some n =>
      rintro ⟨o, ho, -⟩
      cases (h.objects n).symm.trans ho
  exact ⟨fun i fd hv => absurd hv (hnone i fd), fun i _ fd hv => absurd hv (hnone i fd)⟩

theorem accepted_loose {a : Act} (hu : Sound Holds IsOpen u) (h : step u a = some v)
    (hfd : accepted ⟨u, a, v⟩ = some fd) : ¬IsOpen u fd ∧ Loose Holds IsOpen v fd := by
  cases a with
  | connectRequest x sock created alive refused =>
    obtain ⟨⟨hclosed, hopen⟩, he⟩ := Option.ite_none_right_eq_some.mp hfd
    obtain rfl := Option.some.inj he
    obtain ⟨⟨-, hfree⟩, h⟩ := Option.ite_none_right_eq_some.mp h
    have hnot : ¬IsOpen u sock := fun hold => by cases hclosed.symm.trans hold
    split at h
    · have hreleases := connectRequest_releases hfree h
      exact ⟨hnot, hopen, fun i hi => hnot (hu.isOpen i sock (hreleases.held i sock hi))⟩
    · cases h
  | _ => cases hfd

/-- An accepted socket that is open when onConnectRequest returns is never closed: not when its
peer closes or fails, not when the service is stopped and started again. So a process whose
descriptors have numbers below `limit` can keep that many connections in its whole life. -/
theorem accepted_never_closed {s u : Process} {ms : List (Move Process Act)} (hs : Fresh s)
    (h : Path step s ms u) :
    (ms.filterMap accepted).Nodup ∧ (∀ fd ∈ ms.filterMap accepted, u.kernel.isOpen fd = true) ∧
      ∀ limit : Nat, (∀ fd, u.kernel.isOpen fd = true → 0 ≤ fd ∧ fd < limit) →
        (ms.filterMap accepted).length ≤ limit := by
  obtain ⟨hnodup, hloose⟩ := left_open (fun _ _ _ _ => step_passes)
    (fun _ _ _ _ hi hstep hfd => accepted_loose hi hstep hfd) (fresh_sound hs) h
  refine ⟨hnodup, fun fd hfd => (hloose fd hfd).1, fun limit hlimit => ?_⟩
  have hnumbers : ms.filterMap accepted ⊆ (List.range limit).map Int.ofNat := by
    intro fd hfd
    obtain ⟨hlow, hhigh⟩ := hlimit fd (hloose fd hfd).1
    exact List.mem_map.mpr ⟨fd.toNat, List.mem_range.mpr (by omega), Int.toNat_of_nonneg hlow⟩
  calc (ms.filterMap accepted).length
      ≤ ((List.range limit).map Int.ofNat).length := List.Nodup.length_le_of_subset hnodup hnumbers
    _ = limit := by simp

/-- A client comes, its peer closes, and another comes: both sockets stay open. -/
theorem accepted_never_closed_two : ∃ ms u, Path step newProcess ms u ∧
    ms.filterMap accepted = [7, 8] ∧ u.clients.length = 1 ∧ u.kernel.isOpen 7 = true ∧
      u.kernel.isOpen 8 = true := by
  have hrun : ∃ u₁ u₂ u₃ u₄, step newProcess (.startService ⟨3, true, true, false⟩) = some u₁ ∧
      step u₁ (.connectRequest 3 7 true true false) = some u₂ ∧
      step u₂ (.event 7 false ⟨[], true⟩ {} false) = some u₃ ∧
      step u₃ (.connectRequest 3 8 true true false) = some u₄ ∧
      (u₁.kernel.isOpen 7 = false ∧ u₂.kernel.isOpen 7 = true) ∧
      (u₃.kernel.isOpen 8 = false ∧ u₄.kernel.isOpen 8 = true) ∧ u₄.clients.length = 1 :=
    ⟨_, _, _, _, rfl, rfl, rfl, rfl, ⟨rfl, rfl⟩, ⟨rfl, rfl⟩, rfl⟩
  obtain ⟨u₁, u₂, u₃, u₄, h₁, h₂, h₃, h₄, hfirst, hsecond, hclients⟩ := hrun
  have hstart : accepted ⟨newProcess, .startService ⟨3, true, true, false⟩, u₁⟩ = none := rfl
  have hseven : accepted ⟨u₁, .connectRequest 3 7 true true false, u₂⟩ = some 7 := if_pos hfirst
  have hevent : accepted ⟨u₂, .event 7 false ⟨[], true⟩ {} false, u₃⟩ = none := rfl
  have height : accepted ⟨u₃, .connectRequest 3 8 true true false, u₄⟩ = some 8 := if_pos hsecond
  obtain ⟨ms, hms, hp⟩ : ∃ ms : List (Move Process Act), ms.filterMap accepted = [7, 8] ∧
      Path step newProcess ms u₄ := by
    refine ⟨_, ?_, (((Path.nil.snoc h₁).snoc h₂).snoc h₃).snoc h₄⟩
    simp [hstart, hseven, hevent, height]
  obtain ⟨-, hopen, -⟩ := accepted_never_closed newProcess_fresh hp
  exact ⟨ms, u₄, hp, hms, hclients, hopen 7 (by simp [hms]), hopen 8 (by simp [hms])⟩

end DericRpc.ServerSockets
