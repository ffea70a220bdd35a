import DericRpc.IoModule
import DericRpc.Connection
import DericRpc.Lib.Lts

/-! RpcClientImpl over its whole life: connect, disconnect and the events that the dispatch
loop reports for the connections it has made, with IoModule's table and the kernel. -/
namespace DericRpc.ClientLife
open ByteString Common Connection Io Lts

/-- A TcpIoConnection that the client made, the unread bytes of its socket, and whether
that socket is still open. -/
structure ConnObject where
  conn : TcpIoConnection
  incoming : Incoming := ⟨[], false⟩
  socketOpen : Bool

/-- What the last step was: a call with its result, or a close event with the connection
that raised it. -/
inductive Outcome where
  | other
  | connected (id : Nat) (res : Int)
  | disconnected (id : Option Nat) (res : Int)
  | closeRaised (id : Nat)
  deriving DecidableEq

/-- `batch` holds the events of the last epoll_wait that are still to be handled; the flag
is EPOLLERR or EPOLLHUP. -/
structure Client where
  objects : Nat → Option ConnObject := fun _ => none
  count : Nat := 0
  ioConnection : Option Nat := none
  io : IoModule Nat
  kernel : Kernel
  batch : List (Int × Bool) := []
  last : Outcome := .other

inductive Act where
  | connect (port sock : Int) (connected refused : Bool)
  | disconnect
  | arrive (id : Nat) (bytes : Bytes)
  | peerClose (id : Nat)
  | epollWait (events : List (Int × Bool))
  | dispatch (errors : RecvErrors)

def Client.setObject (u : Client) (id : Nat) (o : ConnObject) : Client :=
  { u with objects := Function.update u.objects id (some o) }

def closeAll (k : Kernel) (fds : List Int) : Kernel := fds.foldl Kernel.close k

/-- `sock` is what socket returns, `refused` whether epoll_ctl fails. -/
def connect (u : Client) (port sock : Int) (connected refused : Bool) : Option Client :=
  let id := u.count
  let out := startConnect { ioClient := true } port sock connected
  let opened := if 0 ≤ port ∧ 0 ≤ sock then u.kernel.openFd sock else u.kernel
  let kernel := closeAll opened out.closed
  if out.res < 0 then some { u with kernel := kernel, last := .connected id (-1) }
  else match addIoMember u.io kernel (some (id, out.conn.socketFd)) refused with
    | none => none
    | some (io, kernel, res) =>
      let u := { u with io := io, count := id + 1 }
      if res < 0 then
        let stopped := Connection.stop out.conn
        some { u.setObject id ⟨stopped.conn, ⟨[], false⟩, stopped.closed.isEmpty⟩ with
          kernel := closeAll kernel stopped.closed, last := .connected id (-1) }
      else
        some { u.setObject id ⟨out.conn, ⟨[], false⟩, true⟩ with
          kernel := kernel, ioConnection := some id, last := .connected id 0 }

def disconnect (u : Client) : Option Client :=
  match u.ioConnection with
  | none => some { u with last := .disconnected none 0 }
  | some id => (u.objects id).map fun o =>
    let stopped := Connection.stop o.conn
    if stopped.res < 0 then { u with last := .disconnected (some id) (-1) }
    else
      { u.setObject id { o with
          conn := stopped.conn, socketOpen := o.socketOpen && stopped.closed.isEmpty } with
        kernel := closeAll u.kernel stopped.closed
        ioConnection := none
        last := .disconnected (some id) 0 }

/-- TCP_IO_CONNECTION_EVENT_CLOSE: the connection that raised it is not looked at. -/
def handleEvent (u : Client) (id : Nat) : Client :=
  { u with ioConnection := none, last := .closeRaised id }

/-- The member's reaction to an event: the connection and stream after it, and what it
asks of the client. -/
def react (o : ConnObject) (error : Bool) (errors : RecvErrors) :
    Option (ConnObject × Option ClientCall) :=
  if error = true then some (o, (onIoError o.conn).1)
  else (onReadAvailable o.conn o.incoming errors).map fun out =>
    ({ o with conn := out.conn, incoming := out.stream }, out.call)

def dispatchEvent (u : Client) (fd : Int) (error : Bool) (errors : RecvErrors) : Option Client :=
  if fd = u.io.wakeUpPipeFd.1 then some { u with kernel.pipe := u.kernel.pipe.tail }
  else if u.io.ioMembersMutex = true then none
  else match u.io.ioMembers fd with
    | none => some u
    | some id => (u.objects id).bind fun o => (react o error errors).map fun (o', call) =>
      if call = some .handleEvent then handleEvent (u.setObject id o') id else u.setObject id o'

/-- waitThreadFunc handles its next event. -/
def dispatch (u : Client) (errors : RecvErrors) : Option Client :=
  match u.batch with
  | [] => none
  | (fd, error) :: rest =>
    dispatchEvent { u with batch := rest, last := .other } fd error errors

/-- The kernel gives sockets numbers that are not open, and reports watched descriptors. -/
def step (u : Client) : Act → Option Client
  | .connect port sock connected refused =>
    if 0 ≤ port → 0 ≤ sock → u.kernel.isOpen sock = false then
      connect u port sock connected refused
    else none
  | .disconnect => disconnect u
  | .arrive id bytes => (u.objects id).map fun o =>
      { u.setObject id { o with incoming := ⟨o.incoming.bytes ++ bytes, o.incoming.eof⟩ } with
        last := .other }
  | .peerClose id => (u.objects id).map fun o =>
      { u.setObject id { o with incoming := ⟨o.incoming.bytes, true⟩ } with last := .other }
  | .epollWait events =>
    if u.batch = [] ∧ ∀ e ∈ events, u.kernel.interest e.1 = true then
      some { u with batch := events, last := .other }
    else none
  | .dispatch errors => dispatch u errors

/-- A new client; the module watches nothing but its pipe. -/
structure Fresh (u : Client) : Prop where
  objects : ∀ id, u.objects id = none
  ioConnection : u.ioConnection = none
  ioMembers : ∀ fd, u.io.ioMembers fd = none
  interest : ∀ fd, u.kernel.interest fd = true → fd = u.io.wakeUpPipeFd.1
  batch : u.batch = []

theorem closeAll_interest {k : Kernel} {fds : List Int} {fd : Int}
    (h : (closeAll k fds).interest fd = true) : k.interest fd = true := by
  induction fds generalizing k with
  | nil => exact h
  | cons x fds ih =>
    have hclose : (k.close x).interest fd = true := ih h
    by_cases hx : fd = x
    · simp [Kernel.close, hx] at hclose
    · simpa [Kernel.close, hx] using hclose

theorem stop_client {c : TcpIoConnection} (hs : c.state = .started) (hm : c.ioMode = .client) :
    (Connection.stop c).res = 0 ∧
      (Connection.stop c).closed = if c.socketFd = 0 then [] else [c.socketFd] := by
  by_cases hfd : c.socketFd = 0
  · simp [Connection.stop, hs, hfd]
  · simp [Connection.stop, hs, hm, hfd]

/-- The object of a connection that has just been made. -/
def made (sock : Int) : ConnObject := ⟨connectedTo sock, ⟨[], false⟩, true⟩

/-- The outcomes of connect: no connection, a connection whose fd another one has in the
table, a registered one, and one that epoll refused and that stays in the table. -/
inductive ConnectCase (u v : Client) (port sock : Int) (connected : Bool) : Prop
  | failed (k : Kernel) (hgood : ¬ (0 ≤ port ∧ 0 ≤ sock ∧ connected = true))
      (hk : ∀ fd, k.interest fd = true → u.kernel.interest fd = true)
      (hv : v = { u with kernel := k, last := .connected u.count (-1) })
  | stale (k : Kernel) (old : Nat) (hgood : 0 ≤ port ∧ 0 ≤ sock ∧ connected = true)
      (hold : u.io.ioMembers sock = some old)
      (hk : ∀ fd, k.interest fd = true → u.kernel.interest fd = true)
      (hv : v = { u.setObject u.count (made sock) with
        io := { u.io with ioMembersMutex := true }, count := u.count + 1, kernel := k
        ioConnection := some u.count, last := .connected u.count 0 })
  | registered (k : Kernel) (hgood : 0 ≤ port ∧ 0 ≤ sock ∧ connected = true)
      (hnone : u.io.ioMembers sock = none)
      (hk : ∀ fd, k.interest fd = true → u.kernel.interest fd = true ∨ fd = sock)
      (hv : v = { u.setObject u.count (made sock) with
        io := { u.io with ioMembers := Function.update u.io.ioMembers sock (some u.count) }
        count := u.count + 1, kernel := k
        ioConnection := some u.count, last := .connected u.count 0 })
  | refused (k : Kernel) (o : ConnObject) (hgood : 0 ≤ port ∧ 0 ≤ sock ∧ connected = true)
      (hnone : u.io.ioMembers sock = none)
      (hk : ∀ fd, k.interest fd = true → u.kernel.interest fd = true)
      (hv : v = { u.setObject u.count o with
        io := { u.io with ioMembers := Function.update u.io.ioMembers sock (some u.count) }
        count := u.count + 1, kernel := k, last := .connected u.count (-1) })

theorem connect_cases {u v : Client} {port sock : Int} {connected refused : Bool}
    (h : connect u port sock connected refused = some v) : ConnectCase u v port sock connected := by
  by_cases hgood : 0 ≤ port ∧ 0 ≤ sock ∧ connected = true
  · obtain ⟨hport, hsock, rfl⟩ := hgood
    have hstart := startConnect_ok hport hsock
    unfold connect at h
    simp only [hstart, hport, hsock, and_self, if_true, Int.reduceNeg, lt_self_iff_false, if_false,
      closeAll, List.foldl_nil] at h
    cases hadd : addIoMember u.io (u.kernel.openFd sock) (some (u.count, (connectedTo sock).socketFd))
        refused with
    | none => simp [hadd] at h
    | some r =>
      obtain ⟨io, k, res⟩ := r
      rw [hadd] at h
      rcases addIoMember_cases hsock hadd with ⟨old, hold, rfl, rfl, rfl⟩ |
        ⟨hnone, rfl, ⟨rfl, hk⟩ | ⟨rfl, hk⟩⟩
      · obtain rfl := Option.some.inj h
        exact .stale (u.kernel.openFd sock) old ⟨hport, hsock, rfl⟩ hold (fun _ hi => hi) rfl
      · obtain rfl := Option.some.inj h
        refine .refused _ _ ⟨hport, hsock, rfl⟩ hnone (fun fd hi => ?_) rfl
        have hkept := closeAll_interest hi
        rwa [hk] at hkept
      · obtain rfl := Option.some.inj h
        refine .registered _ ⟨hport, hsock, rfl⟩ hnone (fun fd hi => ?_) rfl
        by_cases hfd : fd = sock
        · exact .inr hfd
        · rw [hk] at hi
          exact .inl (by simpa [connectedTo, hfd, Kernel.openFd] using hi)
  · have hres := startConnect_fails hgood
    unfold connect at h
    simp only [hres, Int.reduceNeg, Int.reduceLT, if_true] at h
    obtain rfl := Option.some.inj h
    refine .failed _ hgood (fun fd hi => ?_) rfl
    have hopened := closeAll_interest hi
    split_ifs at hopened
    · exact hopened
    · exact hopened

theorem react_keeps {o o' : ConnObject} {error : Bool} {errors : RecvErrors}
    {call : Option ClientCall} (h : react o error errors = some (o', call)) :
    ∃ buffer incoming, o' = { o with
      conn := { o.conn with receiveBuffer := buffer }, incoming := incoming } := by
  cases error with
  | true =>
    obtain ⟨rfl, -⟩ : o = o' ∧ _ = call := by simpa [react] using h
    exact ⟨o.conn.receiveBuffer, o.incoming, rfl⟩
  | false =>
    obtain ⟨out, hout, he⟩ := Option.map_eq_some_iff.mp h
    obtain ⟨buffer, hconn⟩ := onReadAvailable_conn hout
    obtain ⟨rfl, -⟩ := Prod.mk.inj he
    exact ⟨buffer, out.stream, by rw [hconn]⟩

/-- What handling the event (fd, error) does: nothing to the client, or one member's
reaction and, when it asks for it, handleEvent. -/
inductive DispatchCase (u v : Client) (errors : RecvErrors) (fd : Int) (error : Bool)
    (rest : List (Int × Bool)) : Prop
  | nothing (pipe : List WakeFlag)
      (hfd : fd = u.io.wakeUpPipeFd.1 ∨ u.io.ioMembers fd = none)
      (hv : v = { u with kernel := { u.kernel with pipe := pipe }, batch := rest, last := .other })
  | reacted (id : Nat) (o o' : ConnObject) (call : Option ClientCall)
      (hpipe : fd ≠ u.io.wakeUpPipeFd.1) (hid : u.io.ioMembers fd = some id)
      (ho : u.objects id = some o) (hreact : react o error errors = some (o', call))
      (hcall : call ≠ some .handleEvent)
      (hv : v = { u.setObject id o' with batch := rest, last := .other })
  | closed (id : Nat) (o o' : ConnObject)
      (hpipe : fd ≠ u.io.wakeUpPipeFd.1) (hid : u.io.ioMembers fd = some id)
      (ho : u.objects id = some o) (hreact : react o error errors = some (o', some .handleEvent))
      (hv : v = { u.setObject id o' with
        batch := rest, ioConnection := none, last := .closeRaised id })

theorem dispatch_cases {u v : Client} {errors : RecvErrors} (h : dispatch u errors = some v) :
    ∃ fd error rest, u.batch = (fd, error) :: rest ∧ DispatchCase u v errors fd error rest := by
  cases hb : u.batch with
  | nil => simp [dispatch, hb] at h
  | cons e rest =>
    obtain ⟨fd, error⟩ := e
    refine ⟨fd, error, rest, rfl, ?_⟩
    by_cases hpipe : fd = u.io.wakeUpPipeFd.1
    · simp only [dispatch, dispatchEvent, hb, hpipe, if_true] at h
      obtain rfl := Option.some.inj h
      exact .nothing u.kernel.pipe.tail (.inl hpipe) rfl
    · cases hmutex : u.io.ioMembersMutex with
      | true => simp [dispatch, dispatchEvent, hb, hpipe, hmutex] at h
      | false =>
        cases hid : u.io.ioMembers fd with
        | none =>
          simp only [dispatch, dispatchEvent, hb, hpipe, hmutex, hid, if_false, Bool.false_eq_true] at h
          obtain rfl := Option.some.inj h
          exact .nothing u.kernel.pipe (.inr hid) rfl
        | some id =>
          simp only [dispatch, dispatchEvent, hb, hpipe, hmutex, hid, if_false, Bool.false_eq_true] at h
          obtain ⟨o, ho, hrest⟩ := Option.bind_eq_some_iff.mp h
          obtain ⟨⟨o', call⟩, hreact, hv⟩ := Option.map_eq_some_iff.mp hrest
          by_cases hcall : call = some .handleEvent
          · subst hcall
            exact .closed id o o' hpipe hid ho hreact (by rw [← hv]; simp; rfl)
          · simp only [if_neg hcall] at hv
            exact .reacted id o o' call hpipe hid ho hreact hcall hv.symm

/-- A started client connection whose socket is open. -/
def Open (o : ConnObject) : Prop :=
  o.conn.state = .started ∧ o.conn.ioMode = .client ∧ o.socketOpen = true

structure Inv (u : Client) : Prop where
  objects : ∀ id o, u.objects id = some o → id < u.count
  registered : ∀ fd id, u.io.ioMembers fd = some id → id < u.count
  current : ∀ id, u.ioConnection = some id → ∃ o, u.objects id = some o ∧ Open o
  watched : ∀ fd, u.kernel.interest fd = true →
    fd = u.io.wakeUpPipeFd.1 ∨ ∃ id, u.io.ioMembers fd = some id
  pending : ∀ e ∈ u.batch, e.1 = u.io.wakeUpPipeFd.1 ∨ ∃ id, u.io.ioMembers e.1 = some id

theorem Fresh.inv {u : Client} (h : Fresh u) : Inv u where
  objects id o ho := by rw [h.objects id] at ho; cases ho
  registered fd id hid := by rw [h.ioMembers fd] at hid; cases hid
  current id hid := by rw [h.ioConnection] at hid; cases hid
  watched fd hfd := .inl (h.interest fd hfd)
  pending e he := by rw [h.batch] at he; cases he

theorem Inv.setObject {u : Client} (hi : Inv u) {id : Nat} {o : ConnObject} (o' : ConnObject)
    (ho : u.objects id = some o) (hopen : Open o → Open o') : Inv (u.setObject id o') where
  objects id' o'' h := by
    by_cases hid : id' = id
    · exact hid ▸ hi.objects id o ho
    · exact hi.objects id' o'' (by simpa [Client.setObject, hid] using h)
  registered := hi.registered
  current id' h := by
    obtain ⟨o'', ho'', hopen''⟩ := hi.current id' h
    by_cases hid : id' = id
    · subst hid
      obtain rfl := Option.some.inj (ho.symm.trans ho'')
      exact ⟨o', by simp [Client.setObject], hopen hopen''⟩
    · exact ⟨o'', by simpa [Client.setObject, hid] using ho'', hopen''⟩
  watched := hi.watched
  pending := hi.pending

theorem react_open {o o' : ConnObject} {error : Bool} {errors : RecvErrors}
    {call : Option ClientCall} (h : react o error errors = some (o', call)) (ho : Open o) :
    Open o' := by
  obtain ⟨buffer, incoming, rfl⟩ := react_keeps h
  exact ho

/-- A new object beside the old ones, and perhaps a new entry of the table. -/
theorem Inv.create {u : Client} (hi : Inv u) (o : ConnObject) (sock : Int) {k : Kernel}
    {io : IoModule Nat} {current : Option Nat} {last : Outcome}
    (hpipe : io.wakeUpPipeFd = u.io.wakeUpPipeFd)
    (hio : io.ioMembers = u.io.ioMembers ∨
      io.ioMembers = Function.update u.io.ioMembers sock (some u.count))
    (hk : ∀ fd, k.interest fd = true → u.kernel.interest fd = true ∨
      (fd = sock ∧ io.ioMembers sock = some u.count))
    (hcurrent : current = u.ioConnection ∨ (current = some u.count ∧ Open o)) :
    Inv { u.setObject u.count o with
      io := io, count := u.count + 1, kernel := k, ioConnection := current, last := last } := by
  have hkeys (fd : Int) (h : ∃ id, u.io.ioMembers fd = some id) :
      ∃ id, io.ioMembers fd = some id := by
    rcases hio with hio | hio
    · rwa [hio]
    · rw [hio]
      by_cases hfd : fd = sock
      · exact ⟨u.count, by rw [hfd, Function.update_self]⟩
      · rwa [Function.update_of_ne hfd]
  refine ⟨fun id o' h => ?_, fun fd id h => ?_, fun id h => ?_, fun fd h => ?_, fun e he => ?_⟩
  · by_cases hid : id = u.count
    · exact hid ▸ Nat.lt_succ_self _
    · exact Nat.lt_succ_of_lt (hi.objects id o' (by simpa [Client.setObject, hid] using h))
  · change io.ioMembers fd = some id at h
    rcases hio with hio | hio
    · exact Nat.lt_succ_of_lt (hi.registered fd id (hio ▸ h))
    · rw [hio] at h
      by_cases hfd : fd = sock
      · rw [hfd, Function.update_self] at h
        exact Option.some.inj h ▸ Nat.lt_succ_self _
      · rw [Function.update_of_ne hfd] at h
        exact Nat.lt_succ_of_lt (hi.registered fd id h)
  · rcases hcurrent with rfl | ⟨rfl, hopen⟩
    · obtain ⟨o', ho', hopen⟩ := hi.current id h
      have hne : id ≠ u.count := (hi.objects id o' ho').ne
      exact ⟨o', by simpa [Client.setObject, hne] using ho', hopen⟩
    · obtain rfl : u.count = id := Option.some.inj h
      exact ⟨o, by simp [Client.setObject], hopen⟩
  · rcases hk fd h with hold | ⟨rfl, hnew⟩
    · exact (hi.watched fd hold).imp (fun h => by rw [h, hpipe]) (hkeys fd)
    · exact .inr ⟨_, hnew⟩
  · exact (hi.pending e he).imp (fun h => by rw [h, hpipe]) (hkeys e.1)

theorem connect_inv {u v : Client} {port sock : Int} {connected refused : Bool} (hi : Inv u)
    (h : connect u port sock connected refused = some v) : Inv v := by
  cases connect_cases h with
  | failed k _ hk hv =>
    subst hv
    exact ⟨hi.objects, hi.registered, hi.current, fun fd h => hi.watched fd (hk fd h), hi.pending⟩
  | stale k old _ _ hk hv =>
    subst hv
    exact hi.create (made sock) sock rfl (.inl rfl) (fun fd h => .inl (hk fd h))
      (.inr ⟨rfl, rfl, rfl, rfl⟩)
  | registered k _ _ hk hv =>
    subst hv
    exact hi.create (made sock) sock rfl (.inr rfl)
      (fun fd h => (hk fd h).imp_right fun hfd => ⟨hfd, Function.update_self ..⟩)
      (.inr ⟨rfl, rfl, rfl, rfl⟩)
  | refused k o _ _ hk hv =>
    subst hv
    exact hi.create o sock rfl (.inr rfl) (fun fd h => .inl (hk fd h)) (.inl rfl)

/-- Disconnecting works on any current connection; it closes the socket unless that is
descriptor 0, and leaves the table as it is. -/
theorem disconnect_cases {u v : Client} (hi : Inv u) (h : disconnect u = some v) :
    (u.ioConnection = none ∧ v = { u with last := .disconnected none 0 }) ∨
    ∃ id o, u.ioConnection = some id ∧ u.objects id = some o ∧ Open o ∧
      v = { u.setObject id { o with
          conn := (Connection.stop o.conn).conn, socketOpen := decide (o.conn.socketFd = 0) } with
        kernel := closeAll u.kernel (Connection.stop o.conn).closed
        ioConnection := none
        last := .disconnected (some id) 0 } := by
  cases hc : u.ioConnection with
  | none =>
    obtain rfl : { u with last := .disconnected none 0 } = v := by simpa [disconnect, hc] using h
    exact .inl ⟨rfl, by rw [hc]⟩
  | some id =>
    obtain ⟨o, ho, hstate, hmode, hopen⟩ := hi.current id hc
    obtain ⟨hres, hclosed⟩ := stop_client hstate hmode
    refine .inr ⟨id, o, rfl, ho, ⟨hstate, hmode, hopen⟩, ?_⟩
    simp only [disconnect, hc, ho, Option.map_some, hres, lt_self_iff_false, if_false, hopen,
      Bool.true_and, Option.some.injEq] at h
    rw [← h, hclosed]
    by_cases hfd : o.conn.socketFd = 0
    · simp [hfd]
    · simp [hfd]

theorem step_inv {u v : Client} {a : Act} (hi : Inv u) (h : step u a = some v) : Inv v := by
  cases a with
  | connect port sock connected refused =>
    exact connect_inv hi (Option.ite_none_right_eq_some.mp h).2
  | disconnect =>
    rcases disconnect_cases hi h with ⟨-, rfl⟩ | ⟨id, o, -, ho, -, rfl⟩
    · exact ⟨hi.objects, hi.registered, hi.current, hi.watched, hi.pending⟩
    · refine ⟨fun id' o' h' => ?_, hi.registered, nofun,
        fun fd hfd => hi.watched fd (closeAll_interest hfd), hi.pending⟩
      by_cases hid : id' = id
      · exact hid ▸ hi.objects id o ho
      · exact hi.objects id' o' (by simpa [Client.setObject, hid] using h')
  | arrive id bytes =>
    obtain ⟨o, ho, rfl⟩ := Option.map_eq_some_iff.mp h
    obtain ⟨hobjects, hregistered, hcurrent, hwatched, hpending⟩ := hi.setObject
      { o with incoming := ⟨o.incoming.bytes ++ bytes, o.incoming.eof⟩ } ho fun hopen => hopen
    exact ⟨hobjects, hregistered, hcurrent, hwatched, hpending⟩
  | peerClose id =>
    obtain ⟨o, ho, rfl⟩ := Option.map_eq_some_iff.mp h
    obtain ⟨hobjects, hregistered, hcurrent, hwatched, hpending⟩ := hi.setObject
      { o with incoming := ⟨o.incoming.bytes, true⟩ } ho fun hopen => hopen
    exact ⟨hobjects, hregistered, hcurrent, hwatched, hpending⟩
  | epollWait events =>
    obtain ⟨⟨-, hevents⟩, rfl⟩ := enabled h
    exact ⟨hi.objects, hi.registered, hi.current, hi.watched,
      fun e he => hi.watched e.1 (hevents e he)⟩
  | dispatch errors =>
    obtain ⟨fd, error, rest, hb, hcase⟩ := dispatch_cases h
    have hrest (e : Int × Bool) (he : e ∈ rest) : e ∈ u.batch := by
      rw [hb]
      exact List.mem_cons_of_mem _ he
    cases hcase with
    | nothing pipe _ hv =>
      subst hv
      exact ⟨hi.objects, hi.registered, hi.current, hi.watched, fun e he => hi.pending e (hrest e he)⟩
    | reacted id o o' call _ _ ho hreact _ hv =>
      subst hv
      obtain ⟨hobjects, hregistered, hcurrent, hwatched, hpending⟩ :=
        hi.setObject o' ho (react_open hreact)
      exact ⟨hobjects, hregistered, hcurrent, hwatched, fun e he => hpending e (hrest e he)⟩
    | closed id o o' _ _ ho hreact hv =>
      subst hv
      obtain ⟨hobjects, hregistered, -, hwatched, hpending⟩ :=
        hi.setObject o' ho (react_open hreact)
      exact ⟨hobjects, hregistered, nofun, hwatched, fun e he => hpending e (hrest e he)⟩

/-! The table and the client's connection. -/

/-- The connection is in nobody's hands any more: not in the table, and its socket closed. -/
def Gone (u : Client) (id : Nat) : Prop :=
  (∀ fd, u.io.ioMembers fd ≠ some id) ∧ ∃ o, u.objects id = some o ∧ o.socketOpen = false

/-- The step that led to this state left the table as it should. -/
def Agrees (u : Client) : Prop :=
  match u.last with
  | .connected id res => res = 0 →
      ∃ o, u.objects id = some o ∧ u.io.ioMembers o.conn.socketFd = some id
  | .disconnected (some id) res => res = 0 → Gone u id
  | .closeRaised id => Gone u id
  | _ => True

/-- The next event makes its member, the connection `id`, ask for handleEvent. -/
def RaisesClose (u : Client) (errors : RecvErrors) (id : Nat) : Prop :=
  match u.batch with
  | [] => False
  | (fd, error) :: _ => fd ≠ u.io.wakeUpPipeFd.1 ∧ u.io.ioMembers fd = some id ∧
      ∃ o o', u.objects id = some o ∧ react o error errors = some (o', some .handleEvent)

/-- A connect gets an fd that the table does not have, a disconnect finds its connection
missing in the table and its fd not 0, and no close event is raised. -/
def Tidy (u : Client) : Act → Prop
  | .connect port sock connected _ =>
      0 ≤ port ∧ 0 ≤ sock ∧ connected = true → u.io.ioMembers sock = none
  | .disconnect => ∀ id o, u.ioConnection = some id → u.objects id = some o →
      (∀ fd, u.io.ioMembers fd ≠ some id) ∧ o.conn.socketFd ≠ 0
  | .dispatch errors => ∀ id, ¬ RaisesClose u errors id
  | _ => True

theorem connect_agrees_iff {u v : Client} {port sock : Int} {connected refused : Bool}
    (hi : Inv u) (h : connect u port sock connected refused = some v) :
    Agrees v ↔ (0 ≤ port ∧ 0 ≤ sock ∧ connected = true → u.io.ioMembers sock = none) := by
  cases connect_cases h with
  | failed k hgood _ hv =>
    subst hv
    exact iff_of_true (fun h => by cases h) fun h => absurd h hgood
  | stale k old hgood hold _ hv =>
    subst hv
    refine iff_of_false (fun hagrees => ?_) fun hnone => ?_
    · obtain ⟨o, ho, hmember⟩ := hagrees rfl
      obtain rfl : made sock = o := by simpa [Client.setObject] using ho
      have hold' : u.io.ioMembers sock = some u.count := hmember
      exact (hi.registered sock u.count hold').ne rfl
    · rw [hnone hgood] at hold
      cases hold
  | registered k hgood hnone _ hv =>
    subst hv
    refine iff_of_true (fun _ => ⟨made sock, by simp [Client.setObject], ?_⟩) fun _ => hnone
    exact Function.update_self ..
  | refused k o hgood hnone _ hv =>
    subst hv
    exact iff_of_true (fun h => by cases h) fun _ => hnone

theorem raisesClose_iff {u : Client} {fd : Int} {error : Bool} {rest : List (Int × Bool)}
    (hb : u.batch = (fd, error) :: rest) (errors : RecvErrors) (id : Nat) :
    RaisesClose u errors id ↔ fd ≠ u.io.wakeUpPipeFd.1 ∧ u.io.ioMembers fd = some id ∧
      ∃ o o', u.objects id = some o ∧ react o error errors = some (o', some .handleEvent) := by
  simp only [RaisesClose, hb]

theorem dispatch_closeRaised_iff {u v : Client} {errors : RecvErrors}
    (h : dispatch u errors = some v) (id : Nat) :
    (v.last = .closeRaised id ↔ RaisesClose u errors id) ∧
      (v.last = .closeRaised id → v.ioConnection = none) := by
  obtain ⟨fd, error, rest, hb, hcase⟩ := dispatch_cases h
  rw [raisesClose_iff hb]
  cases hcase with
  | nothing pipe hfd hv =>
    subst hv
    refine ⟨iff_of_false nofun ?_, nofun⟩
    rintro ⟨hpipe, hid, -⟩
    cases hfd with
    | inl hfd => exact hpipe hfd
    | inr hfd =>
      rw [hfd] at hid
      cases hid
  | reacted id' o o' call _ hid ho hreact hcall hv =>
    subst hv
    refine ⟨iff_of_false nofun ?_, nofun⟩
    rintro ⟨-, hid', o₁, o₂, ho', hreact'⟩
    obtain rfl := Option.some.inj (hid.symm.trans hid')
    obtain rfl := Option.some.inj (ho.symm.trans ho')
    exact hcall (Prod.mk.inj (Option.some.inj (hreact.symm.trans hreact'))).2
  | closed id' o o' hpipe hid ho hreact hv =>
    subst hv
    refine ⟨⟨fun hlast => ?_, fun hraises => ?_⟩, fun _ => rfl⟩
    · obtain rfl : id' = id := Outcome.closeRaised.inj hlast
      exact ⟨hpipe, hid, o, o', ho, hreact⟩
    · rw [Option.some.inj (hid.symm.trans hraises.2.1)]

theorem step_closeRaised_iff {u v : Client} {a : Act} (hi : Inv u) (h : step u a = some v)
    (id : Nat) :
    (v.last = .closeRaised id ↔ ∃ errors, a = .dispatch errors ∧ RaisesClose u errors id) ∧
      (v.last = .closeRaised id → v.ioConnection = none) := by
  -- no other step says that it handled one
  have hother (hlast : v.last ≠ .closeRaised id) (ha : ∀ errors, a ≠ .dispatch errors) :
      (v.last = .closeRaised id ↔ ∃ errors, a = .dispatch errors ∧ RaisesClose u errors id) ∧
        (v.last = .closeRaised id → v.ioConnection = none) :=
    ⟨iff_of_false hlast fun ⟨errors, he, _⟩ => ha errors he, fun h => absurd h hlast⟩
  cases a with
  | connect port sock connected refused =>
    refine hother ?_ nofun
    cases connect_cases (Option.ite_none_right_eq_some.mp h).2 <;> rename_i hv <;> subst hv <;>
      nofun
  | disconnect =>
    refine hother ?_ nofun
    rcases disconnect_cases hi h with ⟨-, rfl⟩ | ⟨_, _, -, -, -, rfl⟩ <;> nofun
  | arrive id' bytes =>
    obtain ⟨o, -, rfl⟩ := Option.map_eq_some_iff.mp h
    exact hother nofun nofun
  | peerClose id' =>
    obtain ⟨o, -, rfl⟩ := Option.map_eq_some_iff.mp h
    exact hother nofun nofun
  | epollWait events =>
    obtain ⟨-, rfl⟩ := enabled h
    exact hother nofun nofun
  | dispatch errors => simpa using dispatch_closeRaised_iff h id

theorem disconnect_agrees_iff {u v : Client} (hi : Inv u) (h : disconnect u = some v) :
    Agrees v ↔ Tidy u .disconnect := by
  rcases disconnect_cases hi h with ⟨hnone, rfl⟩ | ⟨id, o, hid, ho, hopen, rfl⟩
  · exact iff_of_true trivial fun id o hid => by rw [hnone] at hid; cases hid
  · constructor
    · intro hagrees id' o' hid' ho'
      obtain rfl := Option.some.inj (hid.symm.trans hid')
      obtain rfl := Option.some.inj (ho.symm.trans ho')
      obtain ⟨hnone, o'', ho'', hclosed⟩ := hagrees rfl
      obtain rfl : _ = o'' := by simpa [Client.setObject] using ho''
      exact ⟨hnone, by simpa using hclosed⟩
    · intro htidy _
      obtain ⟨hnone, hfd⟩ := htidy id o hid ho
      exact ⟨hnone, _, by simp [Client.setObject]; rfl, by simpa using hfd⟩

theorem dispatch_agrees_iff {u v : Client} {errors : RecvErrors}
    (h : dispatch u errors = some v) : Agrees v ↔ ∀ id, ¬ RaisesClose u errors id := by
  have hraised (id : Nat) := (dispatch_closeRaised_iff h id).1
  obtain ⟨fd, error, rest, -, hcase⟩ := dispatch_cases h
  cases hcase with
  | nothing pipe _ hv =>
    subst hv
    exact iff_of_true trivial fun id hid => nomatch (hraised id).mpr hid
  | reacted id o o' call _ _ _ _ _ hv =>
    subst hv
    exact iff_of_true trivial fun id hid => nomatch (hraised id).mpr hid
  | closed id o o' _ hid _ _ hv =>
    subst hv
    exact iff_of_false (fun hgone => hgone.1 fd hid) fun hnone => hnone id ((hraised id).mp rfl)

theorem step_agrees_iff {u v : Client} {a : Act} (hi : Inv u) (h : step u a = some v) :
    Agrees v ↔ Tidy u a := by
  cases a with
  | connect port sock connected refused =>
    exact connect_agrees_iff hi (Option.ite_none_right_eq_some.mp h).2
  | disconnect => exact disconnect_agrees_iff hi h
  | arrive id bytes =>
    obtain ⟨o, ho, rfl⟩ := Option.map_eq_some_iff.mp h
    exact iff_of_true trivial trivial
  | peerClose id =>
    obtain ⟨o, ho, rfl⟩ := Option.map_eq_some_iff.mp h
    exact iff_of_true trivial trivial
  | epollWait events =>
    obtain ⟨-, rfl⟩ := enabled h
    exact iff_of_true trivial trivial
  | dispatch errors => exact dispatch_agrees_iff h

/-- In every run of a new client: the table and the client's connection agree after every
call and event exactly when each of them is tidy. -/
theorem always_agrees_iff {u v : Client} {ms : List (Move Client Act)} (hu : Fresh u)
    (h : Path step u ms v) :
    (∀ m ∈ ms, Agrees m.post) ↔ ∀ m ∈ ms, Tidy m.pre m.act :=
  h.moves_iff hu.inv (fun _ _ _ hi hs => step_inv hi hs) fun _ hi hs => step_agrees_iff hi hs

/-- A client in a process whose module has been started with pipe (3, 4) and epoll 5. -/
def newClient : Client where
  io := { state := .started, wakeUpPipeFd := (3, 4), epollFd := 5, maxEpollSize := 1024
          epollEvents := true }
  kernel := { isOpen := fun fd => decide (0 ≤ fd ∧ fd ≤ 5), interest := fun fd => decide (fd = 3) }

theorem newClient_fresh : Fresh newClient where
  objects _ := rfl
  ioConnection := rfl
  ioMembers _ := rfl
  interest _ h := of_decide_eq_true h
  batch := rfl

theorem disconnect_run : ∃ ms v, Path step newClient ms v ∧ ms ≠ [] ∧
    v.last = .disconnected (some 0) 0 ∧ v.io.ioMembers 6 = some 0 := by
  have hrun : ∃ v, run step newClient [.connect 80 6 true false, .disconnect] = some v ∧
      v.last = .disconnected (some 0) 0 ∧ v.io.ioMembers 6 = some 0 := ⟨_, rfl, rfl, rfl⟩
  obtain ⟨v, hv, hlast, hmember⟩ := hrun
  obtain ⟨ms, hp, hacts⟩ := path_of_run hv
  refine ⟨ms, v, hp, ?_, hlast, hmember⟩
  rintro rfl
  cases hacts

theorem always_agrees_iff_disconnect :
    ∃ (ms : List (Move Client Act)) (v : Client), ms ≠ [] ∧ Path step newClient ms v ∧
      ((∀ m ∈ ms, Agrees m.post) ↔ ∀ m ∈ ms, Tidy m.pre m.act) := by
  obtain ⟨ms, v, hp, hne, -⟩ := disconnect_run
  exact ⟨ms, v, hne, hp, always_agrees_iff newClient_fresh hp⟩

/-- A connection stays in the table when it is disconnected. -/
theorem disconnected_stays_registered :
    ¬ ∀ (u v : Client) (ms : List (Move Client Act)), Fresh u → Path step u ms v → Agrees v := by
  intro h
  obtain ⟨ms, v, hp, -, hlast, hmember⟩ := disconnect_run
  have hagrees := h newClient v ms newClient_fresh hp
  rw [Agrees, hlast] at hagrees
  exact (hagrees rfl).1 6 hmember

/-! Whose close event it is. -/

/-- A close event of one connection leaves another one that is current in its place. -/
def ClosesOwn (m : Move Client Act) : Prop :=
  ∀ id j, m.post.last = .closeRaised id → m.pre.ioConnection = some j → j ≠ id →
    m.post.ioConnection = some j

/-- No registered connection is watched by epoll or has an event pending. -/
def Quiet (u : Client) : Prop :=
  ∀ fd id, u.io.ioMembers fd = some id → u.kernel.interest fd = false ∧ ∀ e ∈ u.batch, e.1 ≠ fd

/-- The client connects only when none of its earlier connections can be reported. -/
def Calm (u : Client) : Act → Prop
  | .connect _ _ _ _ => Quiet u
  | _ => True

/-- Only the current connection can be reported. -/
def Focus (u : Client) : Prop :=
  ∀ fd id, fd ≠ u.io.wakeUpPipeFd.1 → u.io.ioMembers fd = some id →
    (u.kernel.interest fd = true ∨ ∃ e ∈ u.batch, e.1 = fd) →
    u.ioConnection = none ∨ u.ioConnection = some id

theorem Quiet.not_reported {u : Client} (h : Quiet u) {fd : Int} {id : Nat}
    (hid : u.io.ioMembers fd = some id) :
    ¬ (u.kernel.interest fd = true ∨ ∃ e ∈ u.batch, e.1 = fd) := by
  obtain ⟨hinterest, hbatch⟩ := h fd id hid
  rintro (hi | ⟨e, he, hfd⟩)
  · rw [hinterest] at hi
    cases hi
  · exact hbatch e he hfd

theorem connect_focus {u v : Client} {port sock : Int} {connected refused : Bool} (hi : Inv u)
    (hf : Focus u) (hq : Quiet u) (h : connect u port sock connected refused = some v) :
    Focus v := by
  -- a registered connection other than the new one cannot be reported
  have hold {fd : Int} {id : Nat} (hid : u.io.ioMembers fd = some id)
      (hrep : u.kernel.interest fd = true ∨ ∃ e ∈ u.batch, e.1 = fd) : False :=
    hq.not_reported hid hrep
  -- and neither can a descriptor that nobody is registered for
  have hnew {fd : Int} (hpipe : fd ≠ u.io.wakeUpPipeFd.1) (hnone : u.io.ioMembers fd = none)
      (hrep : u.kernel.interest fd = true ∨ ∃ e ∈ u.batch, e.1 = fd) : False := by
    have hkey : ∃ id, u.io.ioMembers fd = some id := by
      rcases hrep with hint | ⟨e, he, rfl⟩
      · exact (hi.watched fd hint).resolve_left hpipe
      · exact (hi.pending e he).resolve_left hpipe
    obtain ⟨id, hid⟩ := hkey
    rw [hnone] at hid
    cases hid
  cases connect_cases h with
  | failed k _ hk hv =>
    subst hv
    exact fun fd id hpipe hid hrep => hf fd id hpipe hid (hrep.imp_left (hk fd))
  | stale k old _ _ hk hv =>
    subst hv
    exact fun fd id _ hid hrep => (hold hid (hrep.imp_left (hk fd))).elim
  | registered k _ hnone hk hv =>
    subst hv
    intro fd id hpipe hid hrep
    by_cases hfd : fd = sock
    · subst hfd
      exact .inr (by simpa using hid)
    · have hid' : u.io.ioMembers fd = some id := by simpa [hfd] using hid
      exact (hold hid' (hrep.imp_left fun hint => (hk fd hint).resolve_right hfd)).elim
  | refused k o _ hnone hk hv =>
    subst hv
    intro fd id hpipe hid hrep
    by_cases hfd : fd = sock
    · subst hfd
      exact (hnew hpipe hnone (hrep.imp_left (hk fd))).elim
    · have hid' : u.io.ioMembers fd = some id := by simpa [hfd] using hid
      exact (hold hid' (hrep.imp_left (hk fd))).elim

theorem step_focus {u v : Client} {a : Act} (hi : Inv u) (hf : Focus u) (ha : Calm u a)
    (h : step u a = some v) : Focus v := by
  cases a with
  | connect port sock connected refused =>
    exact connect_focus hi hf ha (Option.ite_none_right_eq_some.mp h).2
  | disconnect =>
    rcases disconnect_cases hi h with ⟨-, rfl⟩ | ⟨id, o, -, -, -, rfl⟩
    · exact hf
    · exact fun _ _ _ _ _ => .inl rfl
  | arrive id bytes =>
    obtain ⟨o, -, rfl⟩ := Option.map_eq_some_iff.mp h
    exact hf
  | peerClose id =>
    obtain ⟨o, -, rfl⟩ := Option.map_eq_some_iff.mp h
    exact hf
  | epollWait events =>
    obtain ⟨⟨-, hevents⟩, rfl⟩ := enabled h
    intro fd id hpipe hid hrep
    refine hf fd id hpipe hid (.inl ?_)
    rcases hrep with hint | ⟨e, he, rfl⟩
    · exact hint
    · exact hevents e he
  | dispatch errors =>
    obtain ⟨fd, error, rest, hb, hcase⟩ := dispatch_cases h
    have hrest {fd' : Int} (he : ∃ e ∈ rest, e.1 = fd') : ∃ e ∈ u.batch, e.1 = fd' := by
      obtain ⟨e, he, hfd⟩ := he
      exact ⟨e, by rw [hb]; exact List.mem_cons_of_mem _ he, hfd⟩
    cases hcase with
    | nothing pipe _ hv =>
      subst hv
      exact fun fd' id hpipe hid hrep => hf fd' id hpipe hid (hrep.imp_right hrest)
    | reacted id o o' call _ _ _ _ _ hv =>
      subst hv
      exact fun fd' id hpipe hid hrep => hf fd' id hpipe hid (hrep.imp_right hrest)
    | closed id o o' _ _ _ _ hv =>
      subst hv
      exact fun _ _ _ _ _ => .inl rfl

/-- A connection that raises a close event is the client's only one. -/
def Spares (u : Client) : Act → Prop
  | .dispatch errors => ∀ id j, RaisesClose u errors id → u.ioConnection = some j → j = id
  | _ => True

theorem closesOwn_iff {m : Move Client Act} (hi : Inv m.pre)
    (h : step m.pre m.act = some m.post) : ClosesOwn m ↔ Spares m.pre m.act := by
  constructor
  · intro hown
    cases ha : m.act with
    | dispatch errors =>
      intro id j hraises hcurrent
      obtain ⟨hraised, hnone⟩ := step_closeRaised_iff hi h id
      have hlast := hraised.mpr ⟨errors, ha, hraises⟩
      by_contra hne
      have hkept := hown id j hlast hcurrent hne
      rw [hnone hlast] at hkept
      cases hkept
    | _ => trivial
  · intro hspares id j hlast hcurrent hne
    obtain ⟨errors, ha, hraises⟩ := (step_closeRaised_iff hi h id).1.mp hlast
    rw [ha] at hspares
    exact absurd (hspares id j hraises hcurrent) hne

theorem Focus.spares {u : Client} (hf : Focus u) (a : Act) : Spares u a := by
  cases a with
  | dispatch errors =>
    intro id j hraises hcurrent
    cases hb : u.batch with
    | nil => simp [RaisesClose, hb] at hraises
    | cons e rest =>
      obtain ⟨hpipe, hid, -⟩ := (raisesClose_iff hb errors id).mp hraises
      cases hf e.1 id hpipe hid (.inr ⟨e, by simp [hb], rfl⟩) with
      | inl hnone =>
        rw [hnone] at hcurrent
        cases hcurrent
      | inr hsome => exact Option.some.inj (hcurrent.symm.trans hsome)
  | _ => trivial

theorem spares_of_calm {u v : Client} {ms : List (Move Client Act)} (hu : Fresh u)
    (h : Path step u ms v) (hcalm : ∀ m ∈ ms, Calm m.pre m.act) :
    ∀ m ∈ ms, Spares m.pre m.act := by
  intro m hm
  have hfocus : Focus u := fun fd id _ hid => by rw [hu.ioMembers fd] at hid; cases hid
  have hmove := h.guarded_move (I := fun w => Inv w ∧ Focus w) ⟨hu.inv, hfocus⟩
    (fun _ _ _ hw ha hs => ⟨step_inv hw.1 hs, step_focus hw.1 hw.2 ha hs⟩) hcalm hm
  exact hmove.1.2.spares m.act

/-- In every run of a new client: no close event takes away another connection exactly when
each is raised by the current one or by one that nothing has replaced, and a client that
connects only while none of its connections can be reported sees no others. -/
theorem closes_own_iff {u v : Client} {ms : List (Move Client Act)} (hu : Fresh u)
    (h : Path step u ms v) :
    ((∀ m ∈ ms, ClosesOwn m) ↔ ∀ m ∈ ms, Spares m.pre m.act) ∧
      ((∀ m ∈ ms, Calm m.pre m.act) → ∀ m ∈ ms, ClosesOwn m) := by
  have hiff : (∀ m ∈ ms, ClosesOwn m) ↔ ∀ m ∈ ms, Spares m.pre m.act :=
    h.moves_iff hu.inv (fun _ _ _ hi hs => step_inv hi hs) fun _ hi hs => closesOwn_iff hi hs
  exact ⟨hiff, fun hcalm => hiff.mpr (spares_of_calm hu h hcalm)⟩

/-- Connect and be closed by the peer: the first step is the only connect. -/
theorem closed_run : ∃ ms v, Path step newClient ms v ∧ v.last = .closeRaised 0 ∧
    ∀ m ∈ ms, Calm m.pre m.act := by
  have hrun : ∃ u v, step newClient (.connect 80 6 true false) = some u ∧
      run step u [.peerClose 0, .epollWait [(6, false)], .dispatch {}] = some v ∧
      v.last = .closeRaised 0 := ⟨_, _, rfl, rfl, rfl⟩
  obtain ⟨u, v, hu, hv, hlast⟩ := hrun
  obtain ⟨ms, hp, hacts⟩ := path_of_run hv
  refine ⟨_, v, (Path.nil.snoc hu).append hp, hlast, fun m hm => ?_⟩
  rcases List.mem_append.mp hm with hfirst | hrest
  · obtain rfl : m = ⟨newClient, .connect 80 6 true false, u⟩ := by simpa using hfirst
    exact fun fd id hid => nomatch hid
  · have hact : m.act ∈ [Act.peerClose 0, .epollWait [(6, false)], .dispatch {}] :=
      hacts ▸ List.mem_map_of_mem hrest
    simp only [List.mem_cons, List.not_mem_nil, or_false] at hact
    rcases hact with hact | hact | hact <;> rw [hact] <;> trivial

theorem closes_own_iff_closed :
    ∃ (ms : List (Move Client Act)) (v : Client), Path step newClient ms v ∧
      v.last = .closeRaised 0 ∧ (∀ m ∈ ms, Calm m.pre m.act) ∧
      ((∀ m ∈ ms, ClosesOwn m) ↔ ∀ m ∈ ms, Spares m.pre m.act) ∧ ∀ m ∈ ms, ClosesOwn m := by
  obtain ⟨ms, v, hp, hlast, hcalm⟩ := closed_run
  obtain ⟨hiff, hown⟩ := closes_own_iff newClient_fresh hp
  exact ⟨ms, v, hp, hlast, hcalm, hiff, hown hcalm⟩

/-- Connect, be closed by the peer, connect anew, and read the old connection's end of
stream once more. -/
theorem reconnect_run : ∃ ms u v, Path step newClient ms u ∧
    step u (.dispatch {}) = some v ∧ u.ioConnection = some 1 ∧ v.last = .closeRaised 0 ∧
    v.ioConnection = none := by
  have hrun : ∃ u v, run step newClient [.connect 80 6 true false, .peerClose 0,
      .epollWait [(6, false)], .dispatch {}, .connect 80 7 true false, .epollWait [(6, false)]] =
        some u ∧ step u (.dispatch {}) = some v ∧ u.ioConnection = some 1 ∧
      v.last = .closeRaised 0 ∧ v.ioConnection = none := ⟨_, _, rfl, rfl, rfl, rfl, rfl⟩
  obtain ⟨u, v, hu, hrest⟩ := hrun
  obtain ⟨ms, hp, -⟩ := path_of_run hu
  exact ⟨ms, u, v, hp, hrest⟩

/-- The end of stream of an old connection, read once more, takes away the new one. -/
theorem close_takes_another :
    ¬ ∀ (u v : Client) (ms : List (Move Client Act)), Fresh u → Path step u ms v →
      ∀ m ∈ ms, ClosesOwn m := by
  intro h
  obtain ⟨ms, u, v, hp, hstep, hcurrent, hlast, hnone⟩ := reconnect_run
  have hown := h newClient v _ newClient_fresh (hp.snoc hstep) ⟨u, .dispatch {}, v⟩ (by simp)
  have hkept := hown 0 1 hlast hcurrent (by decide)
  rw [hnone] at hkept
  cases hkept

end DericRpc.ClientLife
