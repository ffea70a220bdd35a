import DericRpc.ServerSockets

/-! The clients that are connected when the service stops. Their sockets are not closed, and
nobody reads them any more. -/
namespace DericRpc.StoppedClients
open Common Connection Custody Io IoServer Lts Sockets ServerSockets

/-- A started connection of an accepted socket. -/
def Connected (u : Process) (n : Nat) (fd : Int) : Prop :=
  ∃ o, u.objects n = some o ∧ o.conn.state = .started ∧ o.conn.ioMode = .server ∧
    o.conn.socketFd = fd

/-- The dispatch loop has no connection for the descriptor. -/
def Unread (u : Process) (fd : Int) : Prop := ∀ n, u.io.ioMembers fd ≠ some (.connection n)

/-- Nothing is new among the connections, in the table or out of it. -/
structure Keeps (u v : Process) : Prop where
  table : ∀ fd n, v.io.ioMembers fd = some (.connection n) →
    u.io.ioMembers fd = some (.connection n)
  connected : ∀ n fd, Connected v n fd → Connected u n fd

variable {u v w : Process} {n : Nat} {fd sock : Int} {o : ConnObject} {refused : Bool}

theorem Keeps.refl (u : Process) : Keeps u u := ⟨fun _ _ h => h, fun _ _ h => h⟩

theorem Keeps.trans (h : Keeps u v) (h' : Keeps v w) : Keeps u w :=
  ⟨fun fd n hw => h.table fd n (h'.table fd n hw),
    fun n fd hw => h.connected n fd (h'.connected n fd hw)⟩

theorem Keeps.unread (h : Keeps u v) (hu : Unread u fd) : Unread v fd :=
  fun n hv => hu n (h.table fd n hv)

theorem keeps_same (hio : v.io = u.io) (hobjects : v.objects = u.objects) : Keeps u v := by
  refine ⟨fun fd n h => hio ▸ h, fun n fd h => ?_⟩
  unfold Connected at h ⊢
  rwa [hobjects] at h

theorem connected_update {i k : Nat} (hobjects : v.objects = Function.update u.objects i (some o))
    (h : Connected v k fd) : (k = i ∧ o.conn.state = .started ∧ o.conn.ioMode = .server ∧
      o.conn.socketFd = fd) ∨ Connected u k fd := by
  obtain ⟨o', ho', hrest⟩ := h
  rw [hobjects] at ho'
  by_cases hk : k = i
  · subst hk
    rw [Function.update_self] at ho'
    obtain rfl := Option.some.inj ho'
    exact .inl ⟨rfl, hrest⟩
  · rw [Function.update_of_ne hk] at ho'
    exact .inr ⟨o', ho', hrest⟩

/-- A connection changes that is stopped, or stays at its socket. -/
theorem keeps_update {c : TcpIoConnection} (ho : u.objects n = some o)
    (htable : ∀ fd n, v.io.ioMembers fd = some (.connection n) →
      u.io.ioMembers fd = some (.connection n))
    (hobjects : v.objects = Function.update u.objects n (some { o with conn := c }))
    (hc : c.state ≠ .started ∨ c.state = o.conn.state ∧ c.ioMode = o.conn.ioMode ∧
      c.socketFd = o.conn.socketFd) : Keeps u v := by
  refine ⟨htable, fun k fd hv => ?_⟩
  obtain ⟨rfl, hstate, hmode, hfd⟩ | hold := connected_update hobjects hv
  · obtain hnot | ⟨hsame, hsame', hsame''⟩ := hc
    · exact absurd hstate hnot
    · exact ⟨o, ho, hsame ▸ hstate, hsame' ▸ hmode, hsame'' ▸ hfd⟩
  · exact hold

theorem stopEntry_keeps (ho : u.objects n = some o) (h : stopEntry u n o refused = some v) :
    Keeps u v ∧ (∀ m, v.io.ioMembers o.conn.socketFd ≠ some m) ∧
      ∀ k, k ≠ n → v.objects k = u.objects k := by
  obtain ⟨⟨io, k, res⟩, hremove, rfl⟩ := Option.map_eq_some_iff.mp h
  obtain ⟨hobjects, -, -⟩ := closeAll_frame
    ((u.setIo io k).setObject n { o with conn := (Connection.stop o.conn).conn })
    (Connection.stop o.conn).closed
  have htable (fd : Int) (m : Member)
      (hm : (closeAll ((u.setIo io k).setObject n
        { o with conn := (Connection.stop o.conn).conn })
        (Connection.stop o.conn).closed).io.ioMembers fd = some m) :
      fd ≠ o.conn.socketFd ∧ u.io.ioMembers fd = some m := by
    rw [closeAll_io] at hm
    exact removeIoMember_table hremove hm
  refine ⟨keeps_update ho (fun fd n hm => (htable fd _ hm).2) hobjects (.inl (stop_state _)),
    fun m hm => (htable _ m hm).1 rfl, fun k hk => ?_⟩
  rw [hobjects]
  exact Function.update_of_ne hk ..

theorem stopClients_keeps {order : List (Nat × Bool)} (h : stopClients u order = some v) :
    Keeps u v := by
  induction order generalizing u with
  | nil =>
    obtain rfl := Option.some.inj h
    exact .refl u
  | cons c rest ih =>
    obtain ⟨n, refused⟩ := c
    obtain ⟨o, ho, hbind⟩ := Option.bind_eq_some_iff.mp h
    obtain ⟨w, hstop, hrest⟩ := Option.bind_eq_some_iff.mp hbind
    exact (stopEntry_keeps ho hstop).1.trans (ih hrest)

theorem stopClients_clears {order : List (Nat × Bool)} (h : stopClients u order = some v)
    (hn : n ∈ order.map Prod.fst) (ho : u.objects n = some o) : Unread v o.conn.socketFd := by
  induction order generalizing u with
  | nil => cases hn
  | cons c rest ih =>
    obtain ⟨k, refused⟩ := c
    obtain ⟨o', ho', hbind⟩ := Option.bind_eq_some_iff.mp h
    obtain ⟨w, hstop, hrest⟩ := Option.bind_eq_some_iff.mp hbind
    obtain ⟨-, hcleared, hother⟩ := stopEntry_keeps ho' hstop
    by_cases hk : n = k
    · subst hk
      obtain rfl : o = o' := Option.some.inj (ho.symm.trans ho')
      exact (stopClients_keeps hrest).unread fun m hm => hcleared _ hm
    · obtain hfirst | hlater := List.mem_cons.mp hn
      · exact absurd hfirst hk
      · exact ih hrest hlater ((hother n hk).trans ho)

theorem stopServer_keeps (h : stopServer u refused = some v) : Keeps u v := by
  obtain ⟨out, hout, rfl⟩ := Option.map_eq_some_iff.mp h
  exact ⟨fun fd n hm => (stop_table hout).1 fd _ hm, fun _ _ h => h⟩

theorem stopService_keeps {order : List (Nat × Bool)} (h : stopService u order refused = some v) :
    Keeps u v := by
  unfold stopService at h
  split_ifs at h
  · obtain rfl := Option.some.inj h
    exact keeps_same rfl rfl
  · obtain ⟨w, hclients, hmap⟩ := Option.bind_eq_some_iff.mp h
    obtain ⟨x, hserver, rfl⟩ := Option.map_eq_some_iff.mp hmap
    have hcleared : Keeps w { w with clients := [] } := keeps_same rfl rfl
    have hstopped := ((stopClients_keeps hclients).trans hcleared).trans (stopServer_keeps hserver)
    exact hstopped.trans (keeps_same rfl rfl)

theorem startService_keeps {a : StartAnswers} (h : startService u a = some v) : Keeps u v := by
  by_cases hready : u.state ≠ .initialized
  · rw [startService, if_pos hready] at h
    obtain rfl := Option.some.inj h
    exact .refl u
  · rw [startService, if_neg hready] at h
    obtain ⟨out, hout, rfl⟩ := Option.map_eq_some_iff.mp h
    refine ⟨fun fd n hm => ?_, fun _ _ h => h⟩
    obtain ⟨-, rfl⟩ | ⟨-, -, hconnections, -⟩ := start_cases hout
    · exact hm
    · exact hconnections fd n hm

theorem disconnect_keeps {j : Nat} (h : disconnect u j = some v) : Keeps u v := by
  unfold disconnect at h
  split at h
  · obtain rfl := Option.some.inj h
    exact .refl u
  · next n _ =>
    obtain ⟨o, ho, hv⟩ := Option.map_eq_some_iff.mp h
    split_ifs at hv
    · obtain rfl := hv
      exact .refl u
    · obtain ⟨hobjects, -, -⟩ := closeAll_frame
        { u.setObject n { o with conn := (Connection.stop o.conn).conn } with
          ioConnection := Function.update u.ioConnection j none } (Connection.stop o.conn).closed
      subst hv
      refine keeps_update ho (fun fd n hm => ?_) hobjects (.inl (stop_state _))
      rwa [closeAll_io] at hm

theorem event_keeps {error : Bool} {incoming : Incoming} {errors : RecvErrors}
    (h : dispatchEvent u n error incoming errors refused = some v) : Keeps u v := by
  obtain ⟨o, c, call, ho, -, hstate, hmode, hfd, hv⟩ := dispatchEvent_cases h
  have hread : Keeps u (u.setObject n { o with conn := c }) :=
    keeps_update ho (fun _ _ hm => hm) rfl (.inr ⟨hstate, hmode, hfd⟩)
  obtain ⟨-, rfl⟩ | ⟨-, -, hclose⟩ := hv
  · exact hread
  · refine hread.trans ?_
    unfold handleEvent at hclose
    split at hclose
    · obtain ⟨w, hstop, rfl⟩ := Option.map_eq_some_iff.mp hclose
      exact (stopEntry_keeps (Function.update_self ..) hstop).1.trans (keeps_same rfl rfl)
    · obtain rfl := Option.some.inj hclose
      exact keeps_same rfl rfl

/-- What is new after a step: in the table only a descriptor that was not open, and connected only
what onConnectRequest has accepted. -/
structure Adds (u v : Process) (new : Option Int) : Prop where
  table : ∀ fd n, v.io.ioMembers fd = some (.connection n) →
    u.io.ioMembers fd = some (.connection n) ∨ ¬IsOpen u fd
  connected : ∀ n fd, Connected v n fd → Connected u n fd ∨ new = some fd

theorem Keeps.adds {new : Option Int} (h : Keeps u v) : Adds u v new :=
  ⟨fun fd n hv => .inl (h.table fd n hv), fun n fd hv => .inl (h.connected n fd hv)⟩

theorem not_open {P : Prop} (hfree : P → u.kernel.isOpen sock = false) (h : P) : ¬IsOpen u sock :=
  fun hopen => by cases (hfree h).symm.trans hopen

theorem connect_adds {j : Nat} {port : Int} {connected : Bool}
    (hfree : 0 ≤ port → 0 ≤ sock → u.kernel.isOpen sock = false)
    (h : connect u j port sock connected refused = some v) : Adds u v none := by
  obtain ⟨-, hobjects, hio, -⟩ | ⟨⟨hport, hsock⟩, -, htable, -, o, hobjects, hnew⟩ :=
    connect_cases h
  · exact (keeps_same hio hobjects).adds
  · refine ⟨fun fd n hm => ?_, fun k fd hv => .inl ?_⟩
    · obtain rfl | hold := htable fd _ hm
      · exact .inr (not_open (hfree hport) hsock)
      · exact .inl hold
    · obtain ⟨-, hstate, hmode, -⟩ | hold := connected_update hobjects hv
      · obtain hnot | ⟨hclient, -⟩ := hnew
        · exact absurd hstate hnot
        · cases hclient.symm.trans hmode
      · exact hold

theorem connectRequest_adds {fd sock : Int} {created alive : Bool}
    (hfree : 0 ≤ sock → u.kernel.isOpen sock = false)
    (h : onConnectRequest u sock created alive refused = some v) :
    Adds u v (accepted ⟨u, .connectRequest fd sock created alive refused, v⟩) := by
  obtain ⟨rfl, -⟩ | ⟨⟨-, -, hsock⟩, ⟨-, rfl⟩ | ⟨-, -, rfl⟩ | ⟨-, -, io, k, res, hadd, rfl⟩⟩ :=
    onConnectRequest_cases h
  · exact (Keeps.refl v).adds
  · exact (keeps_same rfl rfl : Keeps u (openFd u sock)).adds
  · refine ⟨fun _ _ hm => .inl hm, fun k fd hv => .inl ?_⟩
    obtain ⟨-, hstate, -⟩ | hold := connected_update rfl hv
    · cases hstate
    · exact hold
  · refine ⟨fun fd n hm => ?_, fun i fd hv => ?_⟩
    · obtain rfl | hold := addIoMember_table hsock hadd hm
      · exact .inr (not_open hfree hsock)
      · exact .inl hold
    · obtain ⟨-, -, -, rfl⟩ | hold := connected_update rfl hv
      · have hopened : k.isOpen sock = true :=
          (congrFun (addIoMember_isOpen hadd) sock).trans (by simp [Kernel.openFd])
        exact .inr (if_pos ⟨hfree hsock, hopened⟩)
      · exact .inl hold

theorem step_adds {a : Act} (h : step u a = some v) : Adds u v (accepted ⟨u, a, v⟩) := by
  cases a with
  | startService a =>
    obtain ⟨-, h⟩ := Option.ite_none_right_eq_some.mp h
    exact (startService_keeps h).adds
  | stopService order refused =>
    obtain ⟨-, h⟩ := Option.ite_none_right_eq_some.mp h
    exact (stopService_keeps h).adds
  | connectRequest fd sock created alive refused =>
    obtain ⟨⟨-, hfree⟩, h⟩ := Option.ite_none_right_eq_some.mp h
    split at h
    · exact connectRequest_adds hfree h
    · cases h
  | listenerError fd refused =>
    obtain ⟨-, h⟩ := Option.ite_none_right_eq_some.mp h
    split at h
    · exact (stopServer_keeps h).adds
    · cases h
  | connect j port sock connected refused =>
    obtain ⟨hfree, h⟩ := Option.ite_none_right_eq_some.mp h
    exact connect_adds hfree h
  | disconnect j => exact (disconnect_keeps h).adds
  | event fd error incoming errors refused =>
    obtain ⟨-, h⟩ := Option.ite_none_right_eq_some.mp h
    split at h
    · exact (event_keeps h).adds
    · cases h

/-- A connected socket has nobody who would close it. -/
structure Inv (u : Process) : Prop where
  sound : Sound Holds IsOpen u
  connected : ∀ n fd, Connected u n fd → Loose Holds IsOpen u fd

theorem fresh_inv (h : Fresh u) : Inv u where
  sound := fresh_sound h
  connected n fd hn := by
    obtain ⟨o, ho, -⟩ := hn
    cases (h.objects n).symm.trans ho

theorem step_inv {a : Act} (hi : Inv u) (h : step u a = some v) : Inv v where
  sound := (step_passes h).sound hi.sound
  connected n fd hn := by
    obtain hold | hnew := (step_adds h).connected n fd hn
    · exact (step_passes h).loose (hi.connected n fd hold)
    · exact (accepted_loose hi.sound h hnew).2

/-- Open, closed by nobody and read by nobody. -/
structure Forgotten (u : Process) (fd : Int) : Prop where
  loose : Loose Holds IsOpen u fd
  unread : Unread u fd

theorem step_forgotten {a : Act} (hu : Forgotten u fd) (h : step u a = some v) :
    Forgotten v fd where
  loose := (step_passes h).loose hu.loose
  unread n hn := by
    obtain hold | hclosed := (step_adds h).table fd n hn
    · exact hu.unread n hold
    · exact hclosed hu.loose.1

/-- When the service is stopped, the socket of each of its clients stays open, and no connection is
there any more that would read from it: whatever happens afterwards, and also when the service is
started again. The clients are not told. -/
theorem stopped_clients_unread {s : Process} {ms ns : List (Move Process Act)}
    {order : List (Nat × Bool)} {clientId : UInt32} (hs : Fresh s) (h : Path step s ms u)
    (hstarted : u.state = .started) (hn : (clientId, n) ∈ u.clients) (hfd : Connected u n fd)
    (hstop : step u (.stopService order refused) = some v) (hq : Path step v ns w) :
    w.kernel.isOpen fd = true ∧ Unread w fd := by
  have hu : Inv u := h.invariant (fresh_inv hs) fun _ _ _ hi hstep => step_inv hi hstep
  have hloose : Loose Holds IsOpen v fd := (step_passes hstop).loose (hu.connected n fd hfd)
  obtain ⟨hperm, hall⟩ := Option.ite_none_right_eq_some.mp hstop
  have hin : n ∈ order.map Prod.fst := hperm.mem_iff.mpr (List.mem_map.mpr ⟨_, hn, rfl⟩)
  have hunread : Unread v fd := by
    rw [stopService, if_neg (not_not.mpr hstarted)] at hall
    obtain ⟨x, hclients, hmap⟩ := Option.bind_eq_some_iff.mp hall
    obtain ⟨y, hserver, rfl⟩ := Option.map_eq_some_iff.mp hmap
    obtain ⟨o, ho, -, -, rfl⟩ := hfd
    have hcleared : Unread x o.conn.socketFd := stopClients_clears hclients hin ho
    exact (stopServer_keeps hserver).unread hcleared
  have hw : Forgotten w fd :=
    hq.invariant ⟨hloose, hunread⟩ fun _ _ _ hi hstep => step_forgotten hi hstep
  exact ⟨hw.loose.1, hw.unread⟩

/-- A client comes, the service is stopped and started again, and the client is still connected. -/
theorem stopped_clients_unread_restart : ∃ u v w : Process, u.clients = [(1, 0)] ∧
    v.clients = [] ∧ w.state = .started ∧ w.kernel.isOpen 7 = true ∧ Unread w 7 := by
  have hrun : ∃ u₁ u v w, step newProcess (.startService ⟨3, true, true, false⟩) = some u₁ ∧
      step u₁ (.connectRequest 3 7 true true false) = some u ∧
      step u (.stopService [(0, false)] false) = some v ∧
      step v (.startService ⟨8, true, true, false⟩) = some w ∧
      (u.state = .started ∧ u.clients = [(1, 0)] ∧ Connected u 0 7) ∧
      v.clients = [] ∧ w.state = .started :=
    ⟨_, _, _, _, rfl, rfl, rfl, rfl, ⟨rfl, rfl, _, rfl, rfl, rfl, rfl⟩, rfl, rfl⟩
  obtain ⟨u₁, u, v, w, h₁, h₂, hstop, h₄, ⟨hstarted, hclients, hfd⟩, hcleared, hagain⟩ := hrun
  have hn : ((1 : UInt32), 0) ∈ u.clients := by
    rw [hclients]
    exact List.mem_singleton.mpr rfl
  exact ⟨u, v, w, hclients, hcleared, hagain, stopped_clients_unread newProcess_fresh
    ((Path.nil.snoc h₁).snoc h₂) hstarted hn hfd hstop (Path.nil.snoc h₄)⟩

end DericRpc.StoppedClients
