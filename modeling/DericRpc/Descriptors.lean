import DericRpc.ClientLife

/-! The descriptors of a client's connections: open, of one connection each, and watched under its
name. A connection that the client has lost track of stays as it is. -/
namespace DericRpc.Descriptors
open ByteString Common Connection Io Lts ClientLife

def Connected (c : TcpIoConnection) : Prop := c.state = .started ∧ 0 ≤ c.socketFd

/-- The object is a connection over the descriptor. -/
def Socket (u : Client) (id : Nat) (fd : Int) : Prop :=
  ∃ o, u.objects id = some o ∧ Connected o.conn ∧ o.conn.socketFd = fd

/-- Connections have open descriptors of their own, and those in the table are watched. -/
structure Held (u : Client) : Prop where
  inv : Inv u
  isOpen : ∀ id fd, Socket u id fd → u.kernel.isOpen fd = true
  distinct : ∀ i j fd, Socket u i fd → Socket u j fd → i = j
  registered : ∀ fd id fd', u.io.ioMembers fd = some id → Socket u id fd' →
    fd' = fd ∧ u.kernel.interest fd = true
  current : ∀ id, u.ioConnection = some id → ∃ fd, Socket u id fd

variable {u v : Client} {id : Nat} {fd : Int}

theorem fresh_held (h : Fresh u) : Held u where
  inv := h.inv
  isOpen id fd hs := by
    obtain ⟨o, ho, -⟩ := hs
    rw [h.objects id] at ho
    cases ho
  distinct i j fd hs := by
    obtain ⟨o, ho, -⟩ := hs
    rw [h.objects i] at ho
    cases ho
  registered fd id _ hid := by
    rw [h.ioMembers fd] at hid
    cases hid
  current id hid := by
    rw [h.ioConnection] at hid
    cases hid

theorem unused (hu : Inv u) : u.objects u.count = none :=
  Option.eq_none_iff_forall_ne_some.mpr fun o ho => (hu.objects u.count o ho).ne rfl

theorem socket_update {o : ConnObject} {j : Nat}
    (hobjects : v.objects = Function.update u.objects j (some o)) :
    Socket v id fd ↔
      id = j ∧ Connected o.conn ∧ o.conn.socketFd = fd ∨ id ≠ j ∧ Socket u id fd := by
  by_cases hj : id = j
  · subst hj
    simp [Socket, hobjects]
  · simp [Socket, hobjects, hj]

theorem socket_read {o : ConnObject} {j : Nat} (ho : u.objects j = some o) (buffer : Bytes)
    (incoming : Incoming) (hobjects : v.objects = (u.setObject j { o with
      conn := { o.conn with receiveBuffer := buffer }, incoming := incoming }).objects) :
    Socket v id fd ↔ Socket u id fd := by
  rw [socket_update hobjects]
  by_cases hj : id = j
  · subst hj
    simp [Socket, ho, Connected]
  · simp [hj]

theorem socket_stopped {o : ConnObject} {j : Nat} (ho : ¬Connected o.conn)
    (hobjects : v.objects = Function.update u.objects j (some o)) (h : Socket v id fd) :
    id ≠ j ∧ Socket u id fd := by
  obtain ⟨-, hconn, -⟩ | hrest := (socket_update hobjects).1 h
  · exact absurd hconn ho
  · exact hrest

/-- Steps after which there are no more connections than before. -/
theorem Held.fewer (hu : Held u) (hv : Inv v) (hs : ∀ id fd, Socket v id fd → Socket u id fd)
    (ht : v.io.ioMembers = u.io.ioMembers)
    (hk : ∀ id fd, Socket v id fd → v.kernel.isOpen fd = u.kernel.isOpen fd ∧
      v.kernel.interest fd = u.kernel.interest fd)
    (hc : ∀ id, v.ioConnection = some id → u.ioConnection = some id ∧
      ∀ fd, Socket u id fd → Socket v id fd) : Held v where
  inv := hv
  isOpen id fd h := by
    rw [(hk id fd h).1]
    exact hu.isOpen id fd (hs id fd h)
  distinct i j fd hi hj := hu.distinct i j fd (hs i fd hi) (hs j fd hj)
  registered fd id fd' hid h := by
    obtain ⟨rfl, hinterest⟩ := hu.registered fd id fd' (ht ▸ hid) (hs id fd' h)
    exact ⟨rfl, (hk id fd' h).2.trans hinterest⟩
  current id hid := by
    obtain ⟨hold, hkeep⟩ := hc id hid
    obtain ⟨fd, h⟩ := hu.current id hold
    exact ⟨fd, hkeep fd h⟩

theorem closeAll_other {k : Kernel} {fds : List Int} (h : ∀ x ∈ fds, x ≠ fd) :
    (closeAll k fds).isOpen fd = k.isOpen fd ∧ (closeAll k fds).interest fd = k.interest fd := by
  induction fds generalizing k with
  | nil => exact ⟨rfl, rfl⟩
  | cons x fds ih =>
    obtain ⟨hx, hrest⟩ := List.forall_mem_cons.mp h
    obtain ⟨hopen, hinterest⟩ := ih (k := k.close x) hrest
    have hne : fd ≠ x := Ne.symm hx
    change (closeAll (k.close x) fds).isOpen fd = _ ∧ (closeAll (k.close x) fds).interest fd = _
    rw [hopen, hinterest, Kernel.close]
    exact ⟨Function.update_of_ne hne .., Function.update_of_ne hne ..⟩

theorem stop_closed {c : TcpIoConnection} (h : c.socketFd ≠ fd) :
    ∀ x ∈ (Connection.stop c).closed, x ≠ fd := by
  unfold Connection.stop
  split_ifs <;> simp [h]

theorem stop_disconnected (c : TcpIoConnection) : ¬Connected (Connection.stop c).conn := by
  unfold Connection.stop Connected
  split_ifs with hstate
  · exact fun h => hstate h.1
  all_goals simp

/-- What a connect does to the kernel: nothing to other descriptors than its own, which is open
and, if the table was free for it, watched where the connect succeeds. Where it does not, there
is no connection more. -/
structure Opens (u v : Client) (port sock : Int) : Prop where
  others : ∀ fd, (0 ≤ port → 0 ≤ sock → fd ≠ sock) → v.kernel.isOpen fd = u.kernel.isOpen fd ∧
    v.kernel.interest fd = u.kernel.interest fd
  taken : v.last = .connected u.count 0 → v.kernel.isOpen sock = true ∧
    (u.io.ioMembers sock = none → v.kernel.interest sock = true)
  dropped : v.last = .connected u.count (-1) → u.objects u.count = none →
    ∀ o, v.objects u.count = some o → ¬Connected o.conn

theorem connect_opens {port sock : Int} {connected refused : Bool}
    (h : connect u port sock connected refused = some v) : Opens u v port sock := by
  by_cases hgood : 0 ≤ port ∧ 0 ≤ sock ∧ connected = true
  · obtain ⟨hport, hsock, rfl⟩ := hgood
    have hstart := startConnect_ok hport hsock
    unfold connect at h
    simp only [hstart, hport, hsock, and_self, if_true, Int.reduceNeg, lt_self_iff_false, if_false,
      closeAll, List.foldl_nil] at h
    cases hadd : addIoMember u.io (u.kernel.openFd sock) (some (u.count, (connectedTo sock).socketFd))
        refused with
    | none => simp [hadd] at h
    | some r =>
      obtain ⟨io, k, res⟩ := r
      rw [hadd] at h
      have hopen : k.isOpen = Function.update u.kernel.isOpen sock true := addIoMember_isOpen hadd
      have hothers (fd : Int) (hfd : fd ≠ sock) : k.isOpen fd = u.kernel.isOpen fd := by
        rw [hopen, Function.update_of_ne hfd]
      have hself : k.isOpen sock = true := by rw [hopen, Function.update_self]
      obtain ⟨old, hold, rfl, rfl, rfl⟩ | ⟨-, rfl, ⟨rfl, hk⟩ | ⟨rfl, hk⟩⟩ :=
        addIoMember_cases hsock hadd
      · obtain rfl := Option.some.inj h
        refine ⟨fun fd hfd => ⟨hothers fd (hfd hport hsock), rfl⟩,
          fun _ => ⟨hself, fun hnone => ?_⟩, fun hlast => by cases hlast⟩
        cases hold.symm.trans hnone
      · obtain rfl := Option.some.inj h
        refine ⟨fun fd hfd => ?_, fun hlast => (by cases hlast), fun _ _ o ho => ?_⟩
        · have hne := hfd hport hsock
          have hclosed := closeAll_other (k := k) (stop_closed (c := connectedTo sock) hne.symm)
          exact ⟨hclosed.1.trans (hothers fd hne), hclosed.2.trans (by rw [hk]; rfl)⟩
        · change Function.update u.objects u.count _ u.count = some o at ho
          rw [Function.update_self] at ho
          obtain rfl := Option.some.inj ho
          exact stop_disconnected _
      · obtain rfl := Option.some.inj h
        refine ⟨fun fd hfd => ⟨hothers fd (hfd hport hsock), ?_⟩,
          fun _ => ⟨hself, fun _ => ?_⟩, fun hlast => by cases hlast⟩
        · exact (congrFun hk fd).trans (Function.update_of_ne (hfd hport hsock) ..)
        · exact (congrFun hk sock).trans (Function.update_self ..)
  · have hres := startConnect_fails hgood
    have hclosed : ∀ x ∈ (startConnect { ioClient := true } port sock connected).closed,
        0 ≤ port ∧ 0 ≤ sock ∧ x = sock := by
      unfold startConnect
      split_ifs <;> (simp; try omega)
    unfold connect at h
    simp only [hres, Int.reduceNeg, Int.reduceLT, if_true] at h
    obtain rfl := Option.some.inj h
    refine ⟨fun fd hfd => ?_, fun hlast => (by cases hlast),
      fun _ hnone o ho => by cases hnone.symm.trans ho⟩
    have hne (x : Int) (hx : x ∈ (startConnect { ioClient := true } port sock connected).closed) :
        x ≠ fd := by
      obtain ⟨hport, hsock, rfl⟩ := hclosed x hx
      exact (hfd hport hsock).symm
    obtain ⟨hopen, hinterest⟩ := closeAll_other
      (k := if 0 ≤ port ∧ 0 ≤ sock then u.kernel.openFd sock else u.kernel) hne
    refine ⟨hopen.trans ?_, hinterest.trans ?_⟩
    · split_ifs with hgiven
      · exact Function.update_of_ne (hfd hgiven.1 hgiven.2) ..
      · rfl
    · split_ifs <;> rfl

/-- A new object beside the old ones, whose connection has an open descriptor of its own. -/
theorem Held.create {sock : Int} (hu : Held u) (hv : Inv v) (o : ConnObject)
    (hobjects : v.objects = Function.update u.objects u.count (some o))
    (hother : ∀ id fd, Socket u id fd → fd ≠ sock ∧ v.kernel.isOpen fd = u.kernel.isOpen fd ∧
      v.kernel.interest fd = u.kernel.interest fd)
    (hnew : Connected o.conn → o.conn.socketFd = sock ∧ v.kernel.isOpen sock = true)
    (htable : v.io.ioMembers = u.io.ioMembers ∨
      v.io.ioMembers = Function.update u.io.ioMembers sock (some u.count) ∧
        (Connected o.conn → v.kernel.interest sock = true))
    (hcurrent : v.ioConnection = u.ioConnection ∨ v.ioConnection = some u.count ∧ Connected o.conn) :
    Held v := by
  have hself : v.objects u.count = some o := by rw [hobjects, Function.update_self]
  have hrest {id : Nat} (hid : id ≠ u.count) : v.objects id = u.objects id := by
    rw [hobjects, Function.update_of_ne hid]
  have hold {id : Nat} {fd : Int} (hs : Socket v id fd) :
      id = u.count ∧ Connected o.conn ∧ fd = sock ∨ id ≠ u.count ∧ Socket u id fd := by
    obtain ⟨rfl, hconn, hfd⟩ | hrest := (socket_update hobjects).1 hs
    · exact .inl ⟨rfl, hconn, hfd.symm.trans (hnew hconn).1⟩
    · exact .inr hrest
  refine ⟨hv, fun id fd hs => ?_, fun i j fd hi hj => ?_, fun fd id fd' hid hs => ?_,
    fun id hid => ?_⟩
  · obtain ⟨-, hconn, rfl⟩ | ⟨-, hs⟩ := hold hs
    · exact (hnew hconn).2
    · exact (hother id fd hs).2.1.trans (hu.isOpen id fd hs)
  · obtain ⟨rfl, -, rfl⟩ | ⟨-, hi⟩ := hold hi
    · obtain ⟨rfl, -⟩ | ⟨-, hj⟩ := hold hj
      · rfl
      · exact absurd rfl (hother j fd hj).1
    · obtain ⟨-, -, rfl⟩ | ⟨-, hj⟩ := hold hj
      · exact absurd rfl (hother i fd hi).1
      · exact hu.distinct i j fd hi hj
  · have hkept (hid : u.io.ioMembers fd = some id) (hs : Socket v id fd') :
        fd' = fd ∧ v.kernel.interest fd = true := by
      obtain ⟨rfl, -⟩ | ⟨-, hs⟩ := hold hs
      · exact absurd (hu.inv.registered fd u.count hid) (lt_irrefl _)
      · obtain ⟨rfl, hinterest⟩ := hu.registered fd id fd' hid hs
        exact ⟨rfl, (hother id fd' hs).2.2.trans hinterest⟩
    obtain htable | ⟨htable, hwatched⟩ := htable
    · exact hkept (htable ▸ hid) hs
    · rw [htable] at hid
      by_cases hfd : fd = sock
      · subst hfd
        rw [Function.update_self] at hid
        obtain ⟨-, hconn, rfl⟩ | ⟨hne, -⟩ := hold hs
        · exact ⟨rfl, hwatched hconn⟩
        · exact absurd (Option.some.inj hid).symm hne
      · rw [Function.update_of_ne hfd] at hid
        exact hkept hid hs
  · obtain hcurrent | ⟨hcurrent, hconn⟩ := hcurrent
    · obtain ⟨fd, o', ho', hs⟩ := hu.current id (hcurrent ▸ hid)
      exact ⟨fd, o', (hrest (hu.inv.objects id o' ho').ne).trans ho', hs⟩
    · obtain rfl := Option.some.inj (hcurrent.symm.trans hid)
      exact ⟨o.conn.socketFd, o, hself, hconn, rfl⟩

theorem connectedTo_connected {sock : Int} (h : 0 ≤ sock) : Connected (connectedTo sock) := ⟨rfl, h⟩

theorem connect_held {port sock : Int} {connected refused : Bool} (hu : Held u)
    (hfree : 0 ≤ port → 0 ≤ sock → u.kernel.isOpen sock = false)
    (h : connect u port sock connected refused = some v) : Held v := by
  have hopens := connect_opens h
  have hinv := connect_inv hu.inv h
  -- the descriptor of a connection is not the new one
  have hne {id : Nat} {fd : Int} (hs : Socket u id fd) : 0 ≤ port → 0 ≤ sock → fd ≠ sock := by
    rintro hport hsock rfl
    have hclosed := hfree hport hsock
    rw [hu.isOpen id fd hs] at hclosed
    cases hclosed
  have hother (hport : 0 ≤ port) (hsock : 0 ≤ sock) (id : Nat) (fd : Int) (hs : Socket u id fd) :
      fd ≠ sock ∧ v.kernel.isOpen fd = u.kernel.isOpen fd ∧
        v.kernel.interest fd = u.kernel.interest fd :=
    ⟨hne hs hport hsock, hopens.others fd (hne hs)⟩
  cases connect_cases h with
  | failed k hgood _ hv =>
    subst hv
    exact hu.fewer hinv (fun _ _ hs => hs) rfl
      (fun id fd hs => hopens.others fd (hne hs)) fun id hid => ⟨hid, fun _ hs => hs⟩
  | stale k old hgood hold _ hv =>
    obtain ⟨hport, hsock, -⟩ := hgood
    have hconn := connectedTo_connected hsock
    subst hv
    exact hu.create hinv (made sock) rfl (hother hport hsock)
      (fun _ => ⟨rfl, (hopens.taken rfl).1⟩) (.inl rfl) (.inr ⟨rfl, hconn⟩)
  | registered k hgood hnone _ hv =>
    obtain ⟨hport, hsock, -⟩ := hgood
    have hconn := connectedTo_connected hsock
    subst hv
    obtain ⟨hopen, hwatched⟩ := hopens.taken rfl
    exact hu.create hinv (made sock) rfl (hother hport hsock) (fun _ => ⟨rfl, hopen⟩)
      (.inr ⟨rfl, fun _ => hwatched hnone⟩) (.inr ⟨rfl, hconn⟩)
  | refused k o hgood hnone _ hv =>
    obtain ⟨hport, hsock, -⟩ := hgood
    subst hv
    have hdead : ¬Connected o.conn :=
      hopens.dropped rfl (unused hu.inv) o (Function.update_self ..)
    exact hu.create hinv o rfl (hother hport hsock) (fun hconn => absurd hconn hdead)
      (.inr ⟨rfl, fun hconn => absurd hconn hdead⟩) (.inl rfl)

/-- Steps that leave the table alone, and of the objects all but what one has to read. -/
theorem Held.setObject {o : ConnObject} (hu : Held u) (hv : Inv v) (ho : u.objects id = some o)
    (buffer : Bytes) (incoming : Incoming)
    (hobjects : v.objects = (u.setObject id { o with
      conn := { o.conn with receiveBuffer := buffer }, incoming := incoming }).objects)
    (ht : v.io.ioMembers = u.io.ioMembers) (hopen : v.kernel.isOpen = u.kernel.isOpen)
    (hinterest : v.kernel.interest = u.kernel.interest)
    (hc : v.ioConnection = u.ioConnection ∨ v.ioConnection = none) : Held v := by
  have hs (j : Nat) (fd : Int) : Socket v j fd ↔ Socket u j fd :=
    socket_read ho buffer incoming hobjects
  refine hu.fewer hv (fun j fd => (hs j fd).1) ht (fun j fd _ => ?_) fun j hj => ?_
  · exact ⟨congrFun hopen fd, congrFun hinterest fd⟩
  · obtain hc | hc := hc
    · exact ⟨hc ▸ hj, fun fd => (hs j fd).2⟩
    · cases hc.symm.trans hj

/-- The stopped connection's descriptor is nobody else's. -/
theorem disconnect_held (hu : Held u) (h : disconnect u = some v) : Held v := by
  have hinv : Inv v := step_inv (a := .disconnect) hu.inv h
  obtain ⟨-, rfl⟩ | ⟨id, o, hcurrent, ho, -, rfl⟩ := disconnect_cases hu.inv h
  · exact hu.fewer hinv (fun _ _ hs => hs) rfl (fun _ _ _ => ⟨rfl, rfl⟩)
      fun j hj => ⟨hj, fun _ hs => hs⟩
  · obtain ⟨fd, o', ho', hconn, rfl⟩ := hu.current id hcurrent
    obtain rfl := Option.some.inj (ho.symm.trans ho')
    have hs : Socket u id o.conn.socketFd := ⟨o, ho, hconn, rfl⟩
    refine hu.fewer hinv (fun j fd h => (socket_stopped (stop_disconnected o.conn) rfl h).2) rfl
      (fun j fd h => ?_) nofun
    obtain ⟨hj, hold⟩ := socket_stopped (stop_disconnected o.conn) rfl h
    refine closeAll_other (stop_closed ?_)
    rintro rfl
    exact hj (hu.distinct j id _ hold hs)

theorem step_held {a : Act} (hu : Held u) (h : step u a = some v) : Held v := by
  have hinv := step_inv hu.inv h
  cases a with
  | connect port sock connected refused =>
    obtain ⟨hfree, h⟩ := Option.ite_none_right_eq_some.mp h
    exact connect_held hu hfree h
  | disconnect => exact disconnect_held hu h
  | arrive id bytes =>
    obtain ⟨o, ho, rfl⟩ := Option.map_eq_some_iff.mp h
    exact hu.setObject hinv ho o.conn.receiveBuffer _ rfl rfl rfl rfl (.inl rfl)
  | peerClose id =>
    obtain ⟨o, ho, rfl⟩ := Option.map_eq_some_iff.mp h
    exact hu.setObject hinv ho o.conn.receiveBuffer _ rfl rfl rfl rfl (.inl rfl)
  | epollWait events =>
    obtain ⟨-, rfl⟩ := enabled h
    exact hu.fewer hinv (fun _ _ hs => hs) rfl (fun _ _ _ => ⟨rfl, rfl⟩)
      fun j hj => ⟨hj, fun _ hs => hs⟩
  | dispatch errors =>
    obtain ⟨fd, error, rest, -, hcase⟩ := dispatch_cases h
    cases hcase with
    | nothing pipe _ hv =>
      subst hv
      exact hu.fewer hinv (fun _ _ hs => hs) rfl (fun _ _ _ => ⟨rfl, rfl⟩)
        fun j hj => ⟨hj, fun _ hs => hs⟩
    | reacted id o o' call _ _ ho hreact _ hv =>
      obtain ⟨buffer, incoming, rfl⟩ := react_keeps hreact
      subst hv
      exact hu.setObject hinv ho buffer incoming rfl rfl rfl rfl (.inl rfl)
    | closed id o o' _ _ ho hreact hv =>
      obtain ⟨buffer, incoming, rfl⟩ := react_keeps hreact
      subst hv
      exact hu.setObject hinv ho buffer incoming rfl rfl rfl rfl (.inr rfl)

theorem connect_socket {port sock : Int} {connected refused : Bool} (hu : Held u)
    (h : connect u port sock connected refused = some v) (hs : Socket v id fd) :
    Socket u id fd ∨ 0 ≤ port ∧ 0 ≤ sock ∧ fd = sock := by
  have hopens := connect_opens h
  cases connect_cases h with
  | failed k hgood _ hv =>
    subst hv
    exact .inl hs
  | stale k old hgood hold _ hv =>
    subst hv
    obtain ⟨-, -, hfd⟩ | ⟨-, hold⟩ := (socket_update rfl).1 hs
    · exact .inr ⟨hgood.1, hgood.2.1, hfd.symm⟩
    · exact .inl hold
  | registered k hgood hnone _ hv =>
    subst hv
    obtain ⟨-, -, hfd⟩ | ⟨-, hold⟩ := (socket_update rfl).1 hs
    · exact .inr ⟨hgood.1, hgood.2.1, hfd.symm⟩
    · exact .inl hold
  | refused k o hgood hnone _ hv =>
    subst hv
    have hdead : ¬Connected o.conn :=
      hopens.dropped rfl (unused hu.inv) o (Function.update_self ..)
    exact .inl (socket_stopped hdead rfl hs).2

/-- The descriptor is open, and no connection's. -/
def Foreign (u : Client) (fd : Int) : Prop := u.kernel.isOpen fd = true ∧ ∀ id, ¬Socket u id fd

theorem disconnect_foreign (hu : Held u) (hf : Foreign u fd) (h : disconnect u = some v) :
    Foreign v fd := by
  obtain ⟨hopen, hnone⟩ := hf
  obtain ⟨-, rfl⟩ | ⟨id, o, hcurrent, ho, -, rfl⟩ := disconnect_cases hu.inv h
  · exact ⟨hopen, hnone⟩
  · obtain ⟨fd', o', ho', hconn, -⟩ := hu.current id hcurrent
    obtain rfl := Option.some.inj (ho.symm.trans ho')
    have hne : o.conn.socketFd ≠ fd := fun hfd => hnone id ⟨o, ho, hconn, hfd⟩
    exact ⟨(closeAll_other (stop_closed hne)).1.trans hopen,
      fun j hj => hnone j (socket_stopped (stop_disconnected o.conn) rfl hj).2⟩

theorem step_foreign {a : Act} (hu : Held u) (hf : Foreign u fd) (h : step u a = some v) :
    Foreign v fd := by
  cases a with
  | connect port sock connected refused =>
    obtain ⟨hfree, h⟩ := Option.ite_none_right_eq_some.mp h
    obtain ⟨hopen, hnone⟩ := hf
    have hne (hport : 0 ≤ port) (hsock : 0 ≤ sock) : fd ≠ sock := by
      rintro rfl
      cases (hfree hport hsock).symm.trans hopen
    refine ⟨((connect_opens h).others fd hne).1.trans hopen, fun id hs => ?_⟩
    obtain hold | ⟨hport, hsock, hfd⟩ := connect_socket hu h hs
    · exact hnone id hold
    · exact hne hport hsock hfd
  | disconnect => exact disconnect_foreign hu hf h
  | arrive id bytes =>
    obtain ⟨o, ho, rfl⟩ := Option.map_eq_some_iff.mp h
    exact ⟨hf.1, fun j hj => hf.2 j ((socket_read ho o.conn.receiveBuffer _ rfl).1 hj)⟩
  | peerClose id =>
    obtain ⟨o, ho, rfl⟩ := Option.map_eq_some_iff.mp h
    exact ⟨hf.1, fun j hj => hf.2 j ((socket_read ho o.conn.receiveBuffer _ rfl).1 hj)⟩
  | epollWait events =>
    obtain ⟨-, rfl⟩ := enabled h
    exact hf
  | dispatch errors =>
    obtain ⟨at', error, rest, -, hcase⟩ := dispatch_cases h
    cases hcase with
    | nothing pipe _ hv =>
      subst hv
      exact hf
    | reacted j o o' call _ _ ho hreact _ hv =>
      obtain ⟨buffer, incoming, rfl⟩ := react_keeps hreact
      subst hv
      exact ⟨hf.1, fun i hi => hf.2 i ((socket_read ho buffer incoming rfl).1 hi)⟩
    | closed j o o' _ _ ho hreact hv =>
      obtain ⟨buffer, incoming, rfl⟩ := react_keeps hreact
      subst hv
      exact ⟨hf.1, fun i hi => hf.2 i ((socket_read ho buffer incoming rfl).1 hi)⟩

theorem disconnect_io (h : disconnect u = some v) : v.io = u.io := by
  unfold disconnect at h
  split at h
  · obtain rfl := Option.some.inj h
    rfl
  · obtain ⟨o, -, rfl⟩ := Option.map_eq_some_iff.mp h
    dsimp only
    split_ifs
    · rfl
    · rfl

theorem dispatch_io {errors : RecvErrors} (h : dispatch u errors = some v) : v.io = u.io := by
  obtain ⟨fd, error, rest, -, hcase⟩ := dispatch_cases h
  cases hcase with
  | nothing pipe _ hv =>
    subst hv
    rfl
  | reacted id o o' call _ _ _ _ _ hv =>
    subst hv
    rfl
  | closed id o o' _ _ _ _ hv =>
    subst hv
    rfl

theorem step_io {a : Act} (h : step u a = some v) :
    (∃ port sock connected refused, a = .connect port sock connected refused ∧
      connect u port sock connected refused = some v) ∨
    (∀ port sock connected refused, a ≠ .connect port sock connected refused) ∧ v.io = u.io := by
  cases a with
  | connect port sock connected refused =>
    exact .inl ⟨port, sock, connected, refused, rfl, (Option.ite_none_right_eq_some.mp h).2⟩
  | disconnect => exact .inr ⟨nofun, disconnect_io h⟩
  | arrive id bytes =>
    obtain ⟨o, -, rfl⟩ := Option.map_eq_some_iff.mp h
    exact .inr ⟨nofun, rfl⟩
  | peerClose id =>
    obtain ⟨o, -, rfl⟩ := Option.map_eq_some_iff.mp h
    exact .inr ⟨nofun, rfl⟩
  | epollWait events =>
    obtain ⟨-, rfl⟩ := enabled h
    exact .inr ⟨nofun, rfl⟩
  | dispatch errors => exact .inr ⟨nofun, dispatch_io h⟩

theorem step_pipe {a : Act} (h : step u a = some v) : v.io.wakeUpPipeFd = u.io.wakeUpPipeFd := by
  obtain ⟨port, sock, connected, refused, -, hconnect⟩ | ⟨-, hio⟩ := step_io h
  · cases connect_cases hconnect <;> next hv => exact congrArg (fun w => w.io.wakeUpPipeFd) hv
  · rw [hio]

/-- A connection of which `P` is true is registered, and not the one the client knows. -/
structure Lost (P : ConnObject → Prop) (u : Client) (id : Nat) (fd : Int) : Prop where
  object : ∃ o, u.objects id = some o ∧ Connected o.conn ∧ o.conn.socketFd = fd ∧ P o
  member : u.io.ioMembers fd = some id
  pipe : fd ≠ u.io.wakeUpPipeFd.1
  unknown : u.ioConnection ≠ some id

variable {P : ConnObject → Prop}

theorem Lost.socket (h : Lost P u id fd) : Socket u id fd := by
  obtain ⟨o, ho, hconn, hfd, -⟩ := h.object
  exact ⟨o, ho, hconn, hfd⟩

theorem Lost.reported (hu : Held u) (h : Lost P u id fd) (hbatch : u.batch = []) :
    ∃ v, step u (.epollWait [(fd, false)]) = some v := by
  obtain ⟨-, hwatched⟩ := hu.registered fd id fd h.member h.socket
  exact ⟨_, if_pos ⟨hbatch, by simpa using hwatched⟩⟩

theorem Lost.same (h : Lost P u id fd) (hobject : v.objects id = u.objects id)
    (hmember : v.io.ioMembers fd = u.io.ioMembers fd)
    (hpipe : v.io.wakeUpPipeFd = u.io.wakeUpPipeFd) (hunknown : v.ioConnection ≠ some id) :
    Lost P v id fd := by
  obtain ⟨o, ho, hrest⟩ := h.object
  exact ⟨⟨o, hobject.trans ho, hrest⟩, hmember.trans h.member, hpipe ▸ h.pipe, hunknown⟩

theorem Lost.setObject {j : Nat} {o : ConnObject} (h : Lost P u id fd) (ho : u.objects j = some o)
    (buffer : Bytes) {incoming : Incoming}
    (hP : j = id → P o → P { o with
      conn := { o.conn with receiveBuffer := buffer }, incoming := incoming })
    (hobjects : v.objects = (u.setObject j { o with
      conn := { o.conn with receiveBuffer := buffer }, incoming := incoming }).objects)
    (hio : v.io = u.io) (hunknown : v.ioConnection ≠ some id) : Lost P v id fd := by
  by_cases hj : id = j
  · subst hj
    obtain ⟨o', ho', hconn, hfd, hp⟩ := h.object
    obtain rfl := Option.some.inj (ho.symm.trans ho')
    have hself := (congrFun hobjects id).trans (Function.update_self ..)
    exact ⟨⟨_, hself, hconn, hfd, hP rfl hp⟩, hio ▸ h.member, hio ▸ h.pipe, hunknown⟩
  · have hother := (congrFun hobjects id).trans (Function.update_of_ne hj ..)
    exact h.same hother (by rw [hio]) (by rw [hio]) hunknown

theorem connect_lost {port sock : Int} {connected refused : Bool} (hu : Held u)
    (hl : Lost P u id fd) (hfree : 0 ≤ port → 0 ≤ sock → u.kernel.isOpen sock = false)
    (h : connect u port sock connected refused = some v) : Lost P v id fd := by
  have hid : id ≠ u.count := (hu.inv.registered fd id hl.member).ne
  have hfd (hport : 0 ≤ port) (hsock : 0 ≤ sock) : fd ≠ sock := by
    rintro rfl
    have hclosed := hfree hport hsock
    rw [hu.isOpen id fd hl.socket] at hclosed
    cases hclosed
  have hnew : some u.count ≠ some id := fun he => hid (Option.some.inj he).symm
  cases connect_cases h with
  | failed k hgood _ hv =>
    subst hv
    exact hl.same rfl rfl rfl hl.unknown
  | stale k old hgood hold _ hv =>
    subst hv
    exact hl.same (Function.update_of_ne hid ..) rfl rfl hnew
  | registered k hgood hnone _ hv =>
    subst hv
    exact hl.same (Function.update_of_ne hid ..)
      (Function.update_of_ne (hfd hgood.1 hgood.2.1) ..) rfl hnew
  | refused k o hgood hnone _ hv =>
    subst hv
    exact hl.same (Function.update_of_ne hid ..)
      (Function.update_of_ne (hfd hgood.1 hgood.2.1) ..) rfl hl.unknown

/-- A lost connection stays lost, as long as what it reads and what arrives keep `P`. -/
theorem step_lost {a : Act} (hu : Held u) (hl : Lost P u id fd)
    (hreacts : ∀ o o' error errors call, Connected o.conn → P o →
      react o error errors = some (o', call) → P o')
    (harrives : ∀ o bytes, a = .arrive id bytes → P o →
      P { o with incoming := ⟨o.incoming.bytes ++ bytes, o.incoming.eof⟩ })
    (hcloses : ∀ o, P o → P { o with incoming := ⟨o.incoming.bytes, true⟩ })
    (h : step u a = some v) : Lost P v id fd := by
  cases a with
  | connect port sock connected refused =>
    obtain ⟨hfree, h⟩ := Option.ite_none_right_eq_some.mp h
    exact connect_lost hu hl hfree h
  | disconnect =>
    obtain ⟨-, rfl⟩ | ⟨j, o, hcurrent, ho, -, rfl⟩ := disconnect_cases hu.inv h
    · exact hl.same rfl rfl rfl hl.unknown
    · have hj : id ≠ j := by
        rintro rfl
        exact hl.unknown hcurrent
      exact hl.same (Function.update_of_ne hj ..) rfl rfl nofun
  | arrive j bytes =>
    obtain ⟨o, ho, rfl⟩ := Option.map_eq_some_iff.mp h
    exact hl.setObject ho o.conn.receiveBuffer (fun hj hp => harrives o bytes (hj ▸ rfl) hp) rfl rfl
      hl.unknown
  | peerClose j =>
    obtain ⟨o, ho, rfl⟩ := Option.map_eq_some_iff.mp h
    exact hl.setObject ho o.conn.receiveBuffer (fun _ hp => hcloses o hp) rfl rfl hl.unknown
  | epollWait events =>
    obtain ⟨-, rfl⟩ := enabled h
    exact hl.same rfl rfl rfl hl.unknown
  | dispatch errors =>
    obtain ⟨at', error, rest, -, hcase⟩ := dispatch_cases h
    have hkept {o o' : ConnObject} {call : Option ClientCall} {j : Nat} (ho : u.objects j = some o)
        (hreact : react o error errors = some (o', call)) (hj : j = id) (hp : P o) : P o' := by
      subst hj
      obtain ⟨o₁, ho₁, hconn, -⟩ := hl.object
      obtain rfl := Option.some.inj (ho.symm.trans ho₁)
      exact hreacts o o' error errors call hconn hp hreact
    cases hcase with
    | nothing pipe _ hv =>
      subst hv
      exact hl.same rfl rfl rfl hl.unknown
    | reacted j o o' call _ _ ho hreact _ hv =>
      have hp := hkept ho hreact
      obtain ⟨buffer, incoming, rfl⟩ := react_keeps hreact
      subst hv
      exact hl.setObject ho buffer hp rfl rfl hl.unknown
    | closed j o o' _ _ ho hreact hv =>
      have hp := hkept ho hreact
      obtain ⟨buffer, incoming, rfl⟩ := react_keeps hreact
      subst hv
      exact hl.setObject ho buffer hp rfl rfl nofun

end DericRpc.Descriptors
