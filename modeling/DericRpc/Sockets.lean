import DericRpc.IoServer
import DericRpc.Lib.Lts
import DericRpc.Lib.Resources

/-! The sockets of a process with a service and any number of clients: which connection has
them, and how often each is closed. Each call, and each callback of the dispatch loop, is one
step. -/
namespace DericRpc.Sockets
open Common Connection Io IoServer Lts Resources

/-- What m_ioClient of a connection points to: a RpcServiceClientEntry, or the `j`-th
RpcClientImpl. -/
inductive Owner where
  | entry (clientId : UInt32)
  | client (j : Nat)
  deriving DecidableEq

structure ConnObject where
  conn : TcpIoConnection
  owner : Owner

/-- A connection has the number that its socket has in the ledger, and m_clients has the
entries by the numbers of their connections. -/
structure Process where
  state : ComponentState
  server : TcpIoServer
  clients : List (UInt32 × Nat) := []
  clientIndex : UInt32 := 0
  ioConnection : Nat → Option Nat := fun _ => none
  objects : Nat → Option ConnObject := fun _ => none
  ledger : Ledger Int := {}
  io : IoModule Member
  kernel : Kernel

def Process.setObject (u : Process) (n : Nat) (o : ConnObject) : Process :=
  { u with objects := Function.update u.objects n (some o) }

def Process.setIo (u : Process) (io : IoModule Member) (k : Kernel) : Process :=
  { u with io := io, kernel := k }

def openFd (u : Process) (fd : Int) : Process :=
  { u with kernel := u.kernel.openFd fd, ledger := u.ledger.obtain fd }

def closeFd (u : Process) (fd : Int) : Process :=
  { u with kernel := u.kernel.close fd, ledger := u.ledger.close fd }

def closeAll (u : Process) (fds : List Int) : Process := fds.foldl closeFd u

def removeIoConnectionClient (u : Process) (clientId : UInt32) : Process :=
  { u with clients := u.clients.filter fun c => c.1 ≠ clientId }

/-- createIoConnectionClient, and the new connection with setIoFd and setIoClient. -/
def createIoConnectionClient (u : Process) (n : Nat) (sock : Int) : Process :=
  let clientId := u.clientIndex + 1
  { u with
    clientIndex := clientId
    clients := (clientId, n) :: (removeIoConnectionClient u clientId).clients
    objects := Function.update u.objects n
      (some ⟨setIoFd { ioClient := true } sock, .entry clientId⟩) }

/-- `alive` tells whether the entry still finds the service. The result of addIoMember is not
looked at. -/
def startIoClient (u : Process) (n : Nat) (o : ConnObject) (alive refused : Bool) :
    Option (Process × Int) :=
  if alive = false then some (u, -1)
  else if (startAccepted o.conn).2 < 0 then some (u, -1)
  else
    (addIoMember u.io u.kernel (some (.connection n, o.conn.socketFd)) refused).map
      fun (io, k, _) =>
        ((u.setObject n { o with conn := (startAccepted o.conn).1 }).setIo io k, 0)

/-- `sock` is what accept returns, `created` whether the service gives a client. -/
def onConnectRequest (u : Process) (sock : Int) (created alive refused : Bool) : Option Process :=
  if u.server.state ≠ .started then some u
  else if u.server.client = false then some u
  else if sock < 0 then some u
  else
    let n := u.ledger.count
    if created = false then some (openFd u sock)
    else
      let v := createIoConnectionClient (openFd u sock) n sock
      (v.objects n).bind fun o => (startIoClient v n o alive refused).map fun (w, res) =>
        if res < 0 then closeFd (removeIoConnectionClient w (u.clientIndex + 1)) sock else w

/-- A client entry's stop. -/
def stopEntry (u : Process) (n : Nat) (o : ConnObject) (refused : Bool) : Option Process :=
  (removeIoMember u.io u.kernel (some o.conn.socketFd) refused).map fun (io, k, _) =>
    closeAll ((u.setIo io k).setObject n { o with conn := (Connection.stop o.conn).conn })
      (Connection.stop o.conn).closed

/-- `sock` is what socket returns. -/
def connect (u : Process) (j : Nat) (port sock : Int) (connected refused : Bool) :
    Option Process :=
  let n := u.ledger.count
  let out := startConnect { ioClient := true } port sock connected
  let opened := closeAll (if 0 ≤ port ∧ 0 ≤ sock then openFd u sock else u) out.closed
  if out.res < 0 then some opened
  else
    (addIoMember opened.io opened.kernel (some (.connection n, out.conn.socketFd)) refused).map
      fun (io, k, res) =>
        let added := opened.setIo io k
        if res < 0 then
          closeAll (added.setObject n ⟨(Connection.stop out.conn).conn, .client j⟩)
            (Connection.stop out.conn).closed
        else
          { added.setObject n ⟨out.conn, .client j⟩ with
            ioConnection := Function.update u.ioConnection j (some n) }

def disconnect (u : Process) (j : Nat) : Option Process :=
  match u.ioConnection j with
  | none => some u
  | some n => (u.objects n).map fun o =>
    if (Connection.stop o.conn).res < 0 then u
    else
      closeAll { u.setObject n { o with conn := (Connection.stop o.conn).conn } with
        ioConnection := Function.update u.ioConnection j none } (Connection.stop o.conn).closed

/-- m_ioClient.lock() finds an entry while m_clients has it, and a client always. -/
def alive (u : Process) (n : Nat) (o : ConnObject) : Bool :=
  match o.owner with
  | .entry clientId => hasClient u.clients clientId n
  | .client _ => true

/-- The reaction to an event: `incoming` is what the socket has received. -/
def callback (c : TcpIoConnection) (error : Bool) (incoming : Incoming) (errors : RecvErrors) :
    Option (TcpIoConnection × Option ClientCall) :=
  if error = true then some (c, (onIoError c).1)
  else (onReadAvailable c incoming errors).map fun out => (out.conn, out.call)

/-- TCP_IO_CONNECTION_EVENT_CLOSE, of an entry or of a client. -/
def handleEvent (u : Process) (n : Nat) (o : ConnObject) (refused : Bool) : Option Process :=
  match o.owner with
  | .entry clientId =>
    (stopEntry u n o refused).map fun v => removeIoConnectionClient v clientId
  | .client j => some { u with ioConnection := Function.update u.ioConnection j none }

/-- What the dispatch loop does with an event of a connection; handleData opens and closes
nothing. -/
def dispatchEvent (u : Process) (n : Nat) (error : Bool) (incoming : Incoming)
    (errors : RecvErrors) (refused : Bool) : Option Process :=
  (u.objects n).bind fun o =>
    (callback { o.conn with ioClient := alive u n o } error incoming errors).bind
      fun (c, call) =>
        let v := u.setObject n { o with conn := c }
        if call = some .handleEvent then handleEvent v n { o with conn := c } refused else some v

/-- RpcServiceImpl::start. The listener's number is not a counted socket's. -/
def startService (u : Process) (a : StartAnswers) : Option Process :=
  if u.state ≠ .initialized then some u
  else (u.server.start u.io u.kernel a).map fun (out : ServerOut) =>
    { u.setIo out.io out.kernel with
      server := out.server
      ledger := if u.server.state = .initialized ∧ 0 ≤ a.sock then u.ledger.forget a.sock
        else u.ledger
      state := if 0 ≤ out.res then .started else u.state }

def stopServer (u : Process) (refused : Bool) : Option Process :=
  (u.server.stop u.io u.kernel refused).map fun out =>
    { u.setIo out.io out.kernel with
      server := out.server
      ledger := if u.server.state = .started then u.ledger.close u.server.socketFd
        else u.ledger }

/-- The entries of m_clients in the order they are gone through, each with epoll's answer. -/
def stopClients (u : Process) : List (Nat × Bool) → Option Process
  | [] => some u
  | (n, refused) :: rest =>
    (u.objects n).bind fun o => (stopEntry u n o refused).bind fun v => stopClients v rest

/-- RpcServiceImpl::stop, which sets the state on every branch. -/
def stopService (u : Process) (order : List (Nat × Bool)) (refused : Bool) : Option Process :=
  if u.state ≠ .started then some { u with state := .initialized }
  else (stopClients u order).bind fun v =>
    (stopServer { v with clients := [] } refused).map fun w => { w with state := .initialized }

inductive Act where
  | startService (a : StartAnswers)
  | stopService (order : List (Nat × Bool)) (refused : Bool)
  | connectRequest (fd sock : Int) (created alive refused : Bool)
  | listenerError (fd : Int) (refused : Bool)
  | connect (j : Nat) (port sock : Int) (connected refused : Bool)
  | disconnect (j : Nat)
  | event (fd : Int) (error : Bool) (incoming : Incoming) (errors : RecvErrors) (refused : Bool)

/-- The numbers that the kernel gives are not open. The callbacks need the mutex for the
look-up. -/
def step (u : Process) : Act → Option Process
  | .startService a =>
    if 0 ≤ a.sock → u.kernel.isOpen a.sock = false then startService u a else none
  | .stopService order refused =>
    if (order.map Prod.fst).Perm (u.clients.map Prod.snd) then stopService u order refused
    else none
  | .connectRequest fd sock created alive refused =>
    if u.io.ioMembersMutex = false ∧ (0 ≤ sock → u.kernel.isOpen sock = false) then
      match u.io.ioMembers fd with
      | some (.listener _) => onConnectRequest u sock created alive refused
      | _ => none
    else none
  | .listenerError fd refused =>
    if u.io.ioMembersMutex = false then
      match u.io.ioMembers fd with
      | some (.listener _) => stopServer u refused
      | _ => none
    else none
  | .connect j port sock connected refused =>
    if 0 ≤ port → 0 ≤ sock → u.kernel.isOpen sock = false then
      connect u j port sock connected refused
    else none
  | .disconnect j => disconnect u j
  | .event fd error incoming errors refused =>
    if u.io.ioMembersMutex = false then
      match u.io.ioMembers fd with
      | some (.connection n) => dispatchEvent u n error incoming errors refused
      | _ => none
    else none

/-- A process that has not made a socket. -/
structure Fresh (u : Process) : Prop where
  server : u.server.state ≠ .started
  clients : u.clients = []
  ioConnection : ∀ j, u.ioConnection j = none
  objects : ∀ n, u.objects n = none
  ledger : u.ledger = {}
  ioMembers : ∀ fd, u.io.ioMembers fd = none

def InTable (u : Process) (n : Nat) : Prop := ∃ fd, u.io.ioMembers fd = some (.connection n)

/-- The client entry in m_clients, or the client, has the connection. -/
def Owns (u : Process) : Owner → Nat → Prop
  | .entry clientId, n => (clientId, n) ∈ u.clients
  | .client j, n => u.ioConnection j = some n

/-- The connection is still there: IoModule or an owner has it. -/
def Live (u : Process) (n : Nat) : Prop := InTable u n ∨ ∃ owner, Owns u owner n

/-- A connection that is still there has the socket. -/
def Held (u : Process) (n : Nat) (fd : Int) : Prop :=
  Live u n ∧ ∃ o, u.objects n = some o ∧ o.conn.socketFd = fd

/-- No socket is closed twice, and one that no connection has any more is closed. -/
def Conserved (u : Process) : Prop :=
  ∀ n fd, u.ledger.number n = some fd →
    u.ledger.closes n ≤ 1 ∧ (¬Held u n fd → u.ledger.closes n = 1)

/-- The service gives a client for each accepted socket, stop finds no clients, no connection
of a client entry reports a close, and what is disconnected is not descriptor 0, or IoModule
still has it. -/
def Careful (u : Process) : Act → Prop
  | .stopService _ _ => u.state = .started → u.clients = []
  | .connectRequest _ sock created _ _ =>
    u.server.state = .started → u.server.client = true → 0 ≤ sock → created = true
  | .disconnect j => ∀ n o, u.ioConnection j = some n → u.objects n = some o →
    o.conn.socketFd = 0 → InTable u n
  | .event fd error incoming errors _ => ∀ n o clientId c,
    u.io.ioMembers fd = some (.connection n) → u.objects n = some o →
    o.owner = .entry clientId → (clientId, n) ∈ u.clients →
    callback { o.conn with ioClient := true } error incoming errors ≠ some (c, some .handleEvent)
  | _ => True

/-! What holds in every state of a careful run. -/

def Owner.mode : Owner → TcpIoConnectionMode
  | .entry _ => .server
  | .client _ => .client

/-- A started connection that its owner has. Where the mutex is not locked for good, IoModule
has it too. -/
structure Current (u : Process) (owner : Owner) (n : Nat) (fd : Int) : Prop where
  ledger : Open u.ledger n fd
  object : ∃ o, u.objects n = some o ∧ o.owner = owner ∧ o.conn.state = .started ∧
    o.conn.ioMode = owner.mode ∧ o.conn.socketFd = fd
  table : u.io.ioMembersMutex = false → u.io.ioMembers fd = some (.connection n)

structure Kept (u : Process) (n : Nat) (fd : Int) : Prop where
  ledger : Open u.ledger n fd
  kernel : u.kernel.isOpen fd = true
  held : Held u n fd

structure Listening (u : Process) : Prop where
  latest : u.ledger.latest u.server.socketFd = none
  kernel : u.kernel.isOpen u.server.socketFd = true
  ioEntry : ∀ fd, u.server.ioEntry = some fd → fd = u.server.socketFd ∧
    (u.io.ioMembersMutex = false → ∃ sock, u.io.ioMembers fd = some (.listener sock))

/-- `pending` is a socket that a call is still at. -/
structure Inv (pending : Option Nat) (u : Process) : Prop where
  ledger : Sound u.ledger
  objects : ∀ n o, u.objects n = some o → n < u.ledger.count
  sockets : ∀ n fd, u.ledger.number n = some fd → pending ≠ some n →
    u.ledger.closes n = 1 ∨ Kept u n fd
  table : ∀ fd n, u.io.ioMembers fd = some (.connection n) →
    u.ledger.number n = some fd ∧ ∃ o, u.objects n = some o
  owned : ∀ owner n, Owns u owner n → ∃ fd, Current u owner n fd
  listener : u.server.state = .started → Listening u

theorem Fresh.inv {u : Process} (h : Fresh u) : Inv none u where
  ledger := by rw [h.ledger]; exact sound_empty
  objects n o ho := by rw [h.objects n] at ho; cases ho
  sockets n fd hn := by rw [h.ledger] at hn; cases hn
  table fd n hn := by rw [h.ioMembers fd] at hn; cases hn
  owned owner n hn := by
    cases owner with
    | entry clientId => rw [Owns, h.clients] at hn; cases hn
    | client j => rw [Owns, h.ioConnection j] at hn; cases hn
  listener hs := absurd hs h.server

theorem Inv.conserved {u : Process} (hi : Inv none u) : Conserved u := by
  intro n fd hn
  rcases hi.sockets n fd hn nofun with hclosed | hkept
  · exact ⟨hclosed.le, fun _ => hclosed⟩
  · exact ⟨hkept.ledger.closes.trans_le zero_le_one, fun hnot => absurd hkept.held hnot⟩

theorem Inv.weaken {u : Process} (hi : Inv none u) (n : Nat) : Inv (some n) u where
  __ := hi
  sockets m fd hm _ := hi.sockets m fd hm nofun

theorem Current.kernel {u : Process} (hi : Inv none u) {owner : Owner} {n : Nat} {fd : Int}
    (h : Current u owner n fd) : u.kernel.isOpen fd = true := by
  rcases hi.sockets n fd h.ledger.number nofun with hclosed | hkept
  · cases h.ledger.closes.symm.trans hclosed
  · exact hkept.kernel

theorem Current.of_object {u : Process} {owner : Owner} {n : Nat} {fd : Int} {o : ConnObject}
    (h : Current u owner n fd) (ho : u.objects n = some o) :
    o.owner = owner ∧ o.conn.state = .started ∧ o.conn.ioMode = owner.mode ∧
      o.conn.socketFd = fd := by
  obtain ⟨o', ho', hrest⟩ := h.object
  rwa [Option.some.inj (ho.symm.trans ho')]

theorem Inv.fresh {p : Option Nat} {u : Process} (hi : Inv p u) :
    (∀ owner, ¬Owns u owner u.ledger.count) ∧ ¬InTable u u.ledger.count := by
  have hnone (o : ConnObject) : u.objects u.ledger.count ≠ some o := fun ho =>
    (hi.objects _ o ho).false
  constructor
  · intro owner hn
    obtain ⟨_, hc⟩ := hi.owned owner _ hn
    obtain ⟨o, ho, -⟩ := hc.object
    exact hnone o ho
  · rintro ⟨fd, hfd⟩
    obtain ⟨-, o, ho⟩ := hi.table fd _ hfd
    exact hnone o ho

theorem openFd_isOpen {k : Kernel} {sock fd : Int} (h : k.isOpen fd = true) :
    (k.openFd sock).isOpen fd = true := by
  by_cases hfd : fd = sock
  · simp [Kernel.openFd, hfd]
  · simpa [Kernel.openFd, hfd] using h

theorem close_isOpen {k : Kernel} {x fd : Int} (hne : fd ≠ x) (h : k.isOpen fd = true) :
    (k.close x).isOpen fd = true := by
  simpa [Kernel.close, hne] using h

theorem Inv.openFd {u : Process} (hi : Inv none u) {sock : Int}
    (hsock : u.kernel.isOpen sock = false) :
    Inv (some u.ledger.count) (openFd u sock) := by
  have hne {fd : Int} (hfd : u.kernel.isOpen fd = true) : fd ≠ sock := by
    rintro rfl
    cases hsock.symm.trans hfd
  refine ⟨hi.ledger.obtain sock, fun n o ho => Nat.lt_succ_of_lt (hi.objects n o ho),
    fun n fd hn hp => ?_, fun fd n hn => ?_, fun owner n hn => ?_, fun hs => ?_⟩
  · have hcount : n ≠ u.ledger.count := fun he => hp (by rw [he])
    have hold : u.ledger.number n = some fd := by
      simpa [Sockets.openFd, Ledger.obtain, hcount] using hn
    refine (hi.sockets n fd hold (Option.some_ne_none n).symm).imp_right fun hk => ?_
    exact ⟨hk.ledger.obtain hi.ledger (hne hk.kernel), openFd_isOpen hk.kernel, hk.held⟩
  · obtain ⟨hnumber, hobject⟩ := hi.table fd n hn
    have hcount : n ≠ u.ledger.count := (hi.ledger.number n fd hnumber).ne
    exact ⟨by simpa [Sockets.openFd, Ledger.obtain, hcount] using hnumber, hobject⟩
  · obtain ⟨fd, hc⟩ := hi.owned owner n hn
    exact ⟨fd, hc.ledger.obtain hi.ledger (hne (hc.kernel hi)), hc.object, hc.table⟩
  · have hl := hi.listener hs
    exact ⟨by simpa [Sockets.openFd, Ledger.obtain, hne hl.kernel] using hl.latest,
      openFd_isOpen hl.kernel, hl.ioEntry⟩

theorem Inv.closeFd {u : Process} {n : Nat} {fd : Int} (hi : Inv (some n) u)
    (hn : Open u.ledger n fd) (hun : ∀ owner, ¬Owns u owner n) : Inv none (closeFd u fd) := by
  have hne {m : Nat} {fd' : Int} (hm : Open u.ledger m fd') (hmn : m ≠ n) : fd' ≠ fd := by
    rintro rfl
    exact hmn (hm.unique hn)
  have hledger : (Sockets.closeFd u fd).ledger =
      { u.ledger with closes := Function.update u.ledger.closes n 1 } := hn.close_eq
  refine ⟨hi.ledger.close hn, fun m o ho => ?_, fun m fd' hm _ => ?_, fun fd' m hm => ?_,
    fun owner m hm => ?_, fun hs => ?_⟩
  · rw [hledger]
    exact hi.objects m o ho
  · rw [hledger] at hm ⊢
    by_cases hmn : m = n
    · exact .inl (by simp [hmn])
    · rcases hi.sockets m fd' hm fun he => hmn (Option.some.inj he).symm with hclosed | hk
      · exact .inl (by simpa [hmn] using hclosed)
      · exact .inr ⟨hk.ledger.close hn hmn, close_isOpen (hne hk.ledger hmn) hk.kernel, hk.held⟩
  · rw [hledger]
    exact hi.table fd' m hm
  · obtain ⟨fd', hc⟩ := hi.owned owner m hm
    have hmn : m ≠ n := fun he => hun owner (he ▸ hm)
    exact ⟨fd', hc.ledger.close hn hmn, hc.object, hc.table⟩
  · have hl := hi.listener hs
    refine ⟨by rw [hledger]; exact hl.latest, close_isOpen (fun he => ?_) hl.kernel, hl.ioEntry⟩
    have hlatest := hl.latest
    rw [show u.server.socketFd = fd from he, hn.latest] at hlatest
    cases hlatest

theorem Inv.hold {u : Process} {n : Nat} (hi : Inv (some n) u) (fd : Int) (hk : Kept u n fd) :
    Inv none u where
  __ := hi
  sockets m fd' hm _ := by
    by_cases hmn : m = n
    · subst hmn
      obtain rfl := Option.some.inj (hk.ledger.number.symm.trans hm)
      exact .inr hk
    · exact hi.sockets m fd' hm fun he => hmn (Option.some.inj he).symm

/-- The connection of the pending socket may change while it has no owner. -/
theorem Inv.setObject {u : Process} {n : Nat} (hi : Inv (some n) u) (hn : n < u.ledger.count)
    (hun : ∀ owner, ¬Owns u owner n) (o : ConnObject) : Inv (some n) (u.setObject n o) := by
  have hother {m : Nat} {o' : ConnObject} (hmn : m ≠ n) (ho : u.objects m = some o') :
      (u.setObject n o).objects m = some o' := by simpa [Process.setObject, hmn] using ho
  refine ⟨hi.ledger, fun m o' ho => ?_, fun m fd hm hp => ?_, fun fd m hm => ?_,
    fun owner m hm => ?_, fun hs => ?_⟩
  · by_cases hmn : m = n
    · exact hmn ▸ hn
    · exact hi.objects m o' (by simpa [Process.setObject, hmn] using ho)
  · refine (hi.sockets m fd hm hp).imp_right fun hk => ?_
    obtain ⟨hlive, o', ho, hfd⟩ := hk.held
    exact ⟨hk.ledger, hk.kernel, hlive, o', hother (fun he => hp (by rw [he])) ho, hfd⟩
  · obtain ⟨hnumber, o', ho⟩ := hi.table fd m hm
    by_cases hmn : m = n
    · exact ⟨hnumber, o, by simp [Process.setObject, hmn]⟩
    · exact ⟨hnumber, o', hother hmn ho⟩
  · obtain ⟨fd, hc⟩ := hi.owned owner m hm
    have hmn : m ≠ n := fun he => hun owner (he ▸ hm)
    exact ⟨fd, hc.ledger, hc.object.imp fun _ h => h.imp_left (hother hmn), hc.table⟩
  · have hl := hi.listener hs
    exact ⟨hl.latest, hl.kernel, hl.ioEntry⟩

theorem Inv.keepObject {u : Process} (hi : Inv none u) {n : Nat} {o : ConnObject}
    (ho : u.objects n = some o) {c : TcpIoConnection} (hstate : c.state = o.conn.state)
    (hmode : c.ioMode = o.conn.ioMode) (hfd : c.socketFd = o.conn.socketFd) :
    Inv none (u.setObject n { o with conn := c }) := by
  have hobject {m : Nat} {o' : ConnObject} (ho' : u.objects m = some o') :
      ∃ o'', (u.setObject n { o with conn := c }).objects m = some o'' ∧ o''.owner = o'.owner ∧
        o''.conn.state = o'.conn.state ∧ o''.conn.ioMode = o'.conn.ioMode ∧
        o''.conn.socketFd = o'.conn.socketFd := by
    by_cases hmn : m = n
    · subst hmn
      obtain rfl := Option.some.inj (ho.symm.trans ho')
      exact ⟨_, Function.update_self .., rfl, hstate, hmode, hfd⟩
    · exact ⟨o', by simpa [Process.setObject, hmn] using ho', rfl, rfl, rfl, rfl⟩
  refine ⟨hi.ledger, fun m o' ho' => ?_, fun m fd hm hp => ?_, fun fd m hm => ?_,
    fun owner m hm => ?_, fun hs => ?_⟩
  · by_cases hmn : m = n
    · exact hi.objects m o (hmn ▸ ho)
    · exact hi.objects m o' (by simpa [Process.setObject, hmn] using ho')
  · refine (hi.sockets m fd hm hp).imp_right fun hk => ?_
    obtain ⟨hlive, o', ho', hsock⟩ := hk.held
    obtain ⟨o'', ho'', -, -, -, hsame⟩ := hobject ho'
    exact ⟨hk.ledger, hk.kernel, hlive, o'', ho'', hsame.trans hsock⟩
  · obtain ⟨hnumber, o', ho'⟩ := hi.table fd m hm
    obtain ⟨o'', ho'', -⟩ := hobject ho'
    exact ⟨hnumber, o'', ho''⟩
  · obtain ⟨fd, hc⟩ := hi.owned owner m hm
    obtain ⟨o', ho', howner, hs, hm', hsock⟩ := hc.object
    obtain ⟨o'', ho'', howner', hs', hm'', hsock'⟩ := hobject ho'
    exact ⟨fd, hc.ledger, ⟨o'', ho'', howner'.trans howner, hs'.trans hs, hm''.trans hm',
      hsock'.trans hsock⟩, hc.table⟩
  · have hl := hi.listener hs
    exact ⟨hl.latest, hl.kernel, hl.ioEntry⟩

/-- The pending connection is added; where its number is taken, the mutex stays locked. -/
theorem Inv.addMember {u : Process} {n : Nat} (hi : Inv (some n) u) {fd : Int} (hfd : 0 ≤ fd)
    (hn : u.ledger.number n = some fd) (ho : ∃ o, u.objects n = some o) {io : IoModule Member}
    {k : Kernel} {res : Int} {refused : Bool}
    (hadd : addIoMember u.io u.kernel (some (.connection n, fd)) refused = some (io, k, res)) :
    Inv (some n) (u.setIo io k) ∧ k.isOpen = u.kernel.isOpen ∧
      (∀ m, InTable u m → InTable (u.setIo io k) m) ∧
      ((io.ioMembersMutex = true ∧ res = 0) ∨ io.ioMembers fd = some (.connection n)) := by
  have hopen := addIoMember_isOpen hadd
  rcases addIoMember_cases hfd hadd with ⟨old, -, rfl, rfl, rfl⟩ | ⟨hnone, rfl, -⟩
  · refine ⟨⟨hi.ledger, hi.objects, fun m fd' hm hp => ?_, hi.table, fun owner m hm => ?_,
      fun hs => ?_⟩, rfl, fun _ h => h, .inl ⟨rfl, rfl⟩⟩
    · exact (hi.sockets m fd' hm hp).imp_right fun hk => ⟨hk.ledger, hk.kernel, hk.held⟩
    · obtain ⟨fd', hc⟩ := hi.owned owner m hm
      exact ⟨fd', hc.ledger, hc.object, nofun⟩
    · have hl := hi.listener hs
      exact ⟨hl.latest, hl.kernel, fun fd' h => ⟨(hl.ioEntry fd' h).1, nofun⟩⟩
  · have hkeep {fd' : Int} {m : Member} (hm : u.io.ioMembers fd' = some m) :
        Function.update u.io.ioMembers fd (some (.connection n)) fd' = some m := by
      have hne : fd' ≠ fd := fun he => by rw [he, hnone] at hm; cases hm
      rwa [Function.update_of_ne hne]
    have hlive {m : Nat} (hm : InTable u m) : InTable (u.setIo { u.io with
        ioMembers := Function.update u.io.ioMembers fd (some (.connection n)) } k) m :=
      hm.imp fun _ h => hkeep h
    refine ⟨⟨hi.ledger, hi.objects, fun m fd' hm hp => ?_, fun fd' m hm => ?_,
      fun owner m hm => ?_, fun hs => ?_⟩, hopen, fun _ h => hlive h,
      .inr (Function.update_self ..)⟩
    · exact (hi.sockets m fd' hm hp).imp_right fun hk =>
        ⟨hk.ledger, (congrFun hopen fd').trans hk.kernel, hk.held.1.imp_left hlive, hk.held.2⟩
    · by_cases hne : fd' = fd
      · obtain rfl : n = m := by simpa [Process.setIo, hne] using hm
        exact ⟨hne ▸ hn, ho⟩
      · exact hi.table fd' m (by simpa [Process.setIo, hne] using hm)
    · obtain ⟨fd', hc⟩ := hi.owned owner m hm
      exact ⟨fd', hc.ledger, hc.object, fun h => hkeep (hc.table h)⟩
    · have hl := hi.listener hs
      refine ⟨hl.latest, (congrFun hopen _).trans hl.kernel, fun fd' h => ?_⟩
      exact (hl.ioEntry fd' h).imp_right fun hs hm => (hs hm).imp fun _ h => hkeep h

/-- Where IoModule has the connections that leave their owners, and the new owners' are current,
the owners may change. -/
theorem Inv.setOwners {p : Option Nat} {u v : Process} (hi : Inv p u)
    (hv : ∃ clients index ioConnection, v = { u with
      clients := clients, clientIndex := index, ioConnection := ioConnection })
    (hold : ∀ owner n, Owns u owner n → Owns v owner n ∨ InTable u n ∨ p = some n)
    (hnew : ∀ owner n, Owns v owner n → ∃ fd, Current u owner n fd) : Inv p v := by
  obtain ⟨clients, index, ioConnection, rfl⟩ := hv
  refine ⟨hi.ledger, hi.objects, fun n fd hn hp => ?_, hi.table, fun owner n hn => ?_,
    fun hs => ?_⟩
  · refine (hi.sockets n fd hn hp).imp_right fun hk => ⟨hk.ledger, hk.kernel, ?_, hk.held.2⟩
    rcases hk.held.1 with htable | ⟨owner, howner⟩
    · exact .inl htable
    · rcases hold owner n howner with hstill | htable | hpending
      · exact .inr ⟨owner, hstill⟩
      · exact .inl htable
      · exact absurd hpending hp
  · obtain ⟨fd, hc⟩ := hnew owner n hn
    exact ⟨fd, hc.ledger, hc.object, hc.table⟩
  · have hl := hi.listener hs
    exact ⟨hl.latest, hl.kernel, hl.ioEntry⟩

/-- Starting and stopping the listener leaves the sockets and their connections alone. -/
theorem Inv.setServer {u v : Process} (hi : Inv none u)
    (hv : ∃ state server io k l, v = { u.setIo io k with
      state := state, server := server, ledger := l })
    (hledger : Sound v.ledger ∧ v.ledger.count = u.ledger.count ∧
      v.ledger.number = u.ledger.number ∧ v.ledger.closes = u.ledger.closes)
    (hopen : ∀ n fd, Open u.ledger n fd → u.kernel.isOpen fd = true →
      Open v.ledger n fd ∧ v.kernel.isOpen fd = true)
    (htable : ∀ fd n, v.io.ioMembers fd = some (.connection n) ↔
      u.io.ioMembers fd = some (.connection n))
    (hmutex : v.io.ioMembersMutex = false → u.io.ioMembersMutex = false)
    (hlistener : v.server.state = .started → Listening v) : Inv none v := by
  obtain ⟨state, server, io, k, l, rfl⟩ := hv
  obtain ⟨hsound, hcount, hnumber, hcloses⟩ := hledger
  refine ⟨hsound, fun n o ho => hcount ▸ hi.objects n o ho, fun n fd hn _ => ?_,
    fun fd n hn => ?_, fun owner n hn => ?_, hlistener⟩
  · rw [hcloses]
    refine (hi.sockets n fd (hnumber ▸ hn) nofun).imp_right fun hk => ?_
    obtain ⟨hl, hkernel⟩ := hopen n fd hk.ledger hk.kernel
    exact ⟨hl, hkernel, hk.held.1.imp_left fun h => h.imp fun _ h => (htable _ n).mpr h, hk.held.2⟩
  · rw [hnumber]
    exact hi.table fd n ((htable fd n).mp hn)
  · obtain ⟨fd, hc⟩ := hi.owned owner n hn
    exact ⟨fd, (hopen n fd hc.ledger (hc.kernel hi)).1, hc.object,
      fun h => (htable fd n).mpr (hc.table (hmutex h))⟩

theorem startService_inv {u v : Process} {a : StartAnswers} (hi : Inv none u)
    (hsock : 0 ≤ a.sock → u.kernel.isOpen a.sock = false) (h : startService u a = some v) :
    Inv none v := by
  by_cases hready : u.state ≠ .initialized
  · rw [startService, if_pos hready] at h
    rwa [← Option.some.inj h]
  rw [startService, if_neg hready] at h
  obtain ⟨out, hout, rfl⟩ := Option.map_eq_some_iff.mp h
  rcases start_cases hout with ⟨hs, rfl⟩ | ⟨hs, hgrows, hsame, hmutex, hkernel, hstarted⟩
  · have hl : (if u.server.state = .initialized ∧ 0 ≤ a.sock then u.ledger.forget a.sock
        else u.ledger) = u.ledger := if_neg fun h => hs h.1
    rw [hl]
    exact hi.setServer ⟨_, _, _, _, _, rfl⟩ ⟨hi.ledger, rfl, rfl, rfl⟩ (fun _ _ h h' => ⟨h, h'⟩)
      (fun _ _ => Iff.rfl) id fun hs => ⟨(hi.listener hs).latest, (hi.listener hs).kernel,
        (hi.listener hs).ioEntry⟩
  · have hne {fd : Int} (hfd : u.kernel.isOpen fd = true) (h0 : 0 ≤ a.sock) : fd ≠ a.sock := by
      rintro rfl
      cases (hsock h0).symm.trans hfd
    by_cases h0 : 0 ≤ a.sock
    · rw [if_pos (And.intro hs h0)]
      refine hi.setServer ⟨_, _, _, _, _, rfl⟩ ⟨hi.ledger.forget a.sock, rfl, rfl, rfl⟩
        (fun n fd hn hfd => ⟨hn.forget (hne hfd h0), hkernel fd (hne hfd) hfd⟩)
        (fun fd n => ⟨hsame fd n, hgrows fd _⟩) hmutex fun hs' => ?_
      obtain ⟨-, hfd, hentry, hopen, hlisten⟩ := hstarted hs'
      refine ⟨by simp [hfd, Ledger.forget], by rw [← hfd] at hopen; exact hopen, fun fd he => ?_⟩
      obtain rfl := Option.some.inj (hentry.symm.trans he)
      exact ⟨hfd.symm, fun hm => ⟨a.sock, hlisten hm⟩⟩
    · have hl : (if u.server.state = .initialized ∧ 0 ≤ a.sock then u.ledger.forget a.sock
          else u.ledger) = u.ledger := if_neg fun h => h0 h.2
      rw [hl]
      exact hi.setServer ⟨_, _, _, _, _, rfl⟩ ⟨hi.ledger, rfl, rfl, rfl⟩
        (fun n fd hn hfd => ⟨hn, hkernel fd (hne hfd) hfd⟩)
        (fun fd n => ⟨hsame fd n, hgrows fd _⟩) hmutex fun hs' => absurd (hstarted hs').1 h0

/-- The listener's socket is not one of the counted. -/
theorem stopServer_inv {u v : Process} {refused : Bool} (hi : Inv none u)
    (h : stopServer u refused = some v) : Inv none v := by
  obtain ⟨out, hout, rfl⟩ := Option.map_eq_some_iff.mp h
  have hdown := stop_down hout
  by_cases hs : u.server.state = .started
  · have hl := hi.listener hs
    have hledger : (if u.server.state = .started then u.ledger.close u.server.socketFd
        else u.ledger) = u.ledger := by rw [if_pos hs, close_of_none hl.latest]
    have hne {n : Nat} {fd : Int} (hn : Open u.ledger n fd) : fd ≠ u.server.socketFd := by
      rintro rfl
      cases hl.latest.symm.trans hn.latest
    rw [hledger]
    cases stop_step hout with
    | skipped hnot => exact absurd hs hnot
    | noEntry _ _ =>
      exact hi.setServer ⟨_, _, _, _, _, rfl⟩ ⟨hi.ledger, rfl, rfl, rfl⟩
        (fun _ _ hn hfd => ⟨hn, close_isOpen (hne hn) hfd⟩) (fun _ _ => Iff.rfl) id
        fun h => absurd h hdown
    | removed fd io k res _ he hremove =>
      obtain ⟨rfl, hentry⟩ := hl.ioEntry fd he
      obtain ⟨hmutex, hopen, ⟨hnone, rfl⟩ | ⟨-, rfl⟩⟩ := removeIoMember_cases hremove
      · obtain ⟨sock, hsome⟩ := hentry hmutex
        cases hnone.symm.trans hsome
      · obtain ⟨sock, hsome⟩ := hentry hmutex
        refine hi.setServer ⟨_, _, _, _, _, rfl⟩ ⟨hi.ledger, rfl, rfl, rfl⟩
          (fun _ fd hn hfd => ⟨hn, close_isOpen (hne hn) ((congrFun hopen fd).trans hfd)⟩)
          (fun fd n => ?_) (fun _ => hmutex) fun h => absurd h hdown
        by_cases hfd : fd = u.server.socketFd
        · simp [Process.setIo, hfd, hsome]
        · simp [Process.setIo, hfd]
  · rw [if_neg hs]
    cases stop_step hout with
    | skipped _ =>
      exact hi.setServer ⟨_, _, _, _, _, rfl⟩ ⟨hi.ledger, rfl, rfl, rfl⟩ (fun _ _ h h' => ⟨h, h'⟩)
        (fun _ _ => Iff.rfl) id fun h => absurd h hs
    | noEntry hstarted _ => exact absurd hstarted hs
    | removed _ _ _ _ hstarted _ _ => exact absurd hstarted hs

theorem Inv.owner_unique {p : Option Nat} {u : Process} (hi : Inv p u) {a b : Owner} {n : Nat}
    (ha : Owns u a n) (hb : Owns u b n) : a = b := by
  obtain ⟨_, hc⟩ := hi.owned a n ha
  obtain ⟨_, hc'⟩ := hi.owned b n hb
  obtain ⟨o, ho, howner, -⟩ := hc.object
  exact howner.symm.trans (hc'.of_object ho).1

theorem startAccepted_ok {sock : Int} (hsock : 0 ≤ sock) :
    startAccepted (setIoFd { ioClient := true } sock) =
      ({ state := .started, socketFd := sock, ioClient := true }, 0) := by
  simp [startAccepted, setIoFd, not_lt.mpr hsock]

/-- What onConnectRequest does with a socket for which it gets a client. -/
theorem onConnectRequest_cases {u v : Process} {sock : Int} {created alive refused : Bool}
    (h : onConnectRequest u sock created alive refused = some v) :
    (v = u ∧ ¬(u.server.state = .started ∧ u.server.client = true ∧ 0 ≤ sock)) ∨
    ((u.server.state = .started ∧ u.server.client = true ∧ 0 ≤ sock) ∧
      ((created = false ∧ v = openFd u sock) ∨ (created = true ∧ alive = false ∧
        v = closeFd (removeIoConnectionClient
          (createIoConnectionClient (openFd u sock) u.ledger.count sock) (u.clientIndex + 1)) sock) ∨
      (created = true ∧ alive = true ∧ ∃ io k res,
        addIoMember u.io (u.kernel.openFd sock) (some (.connection u.ledger.count, sock)) refused =
          some (io, k, res) ∧
        v = { ((openFd u sock).setObject u.ledger.count
            ⟨{ state := .started, socketFd := sock, ioClient := true },
              .entry (u.clientIndex + 1)⟩).setIo io k with
          clientIndex := u.clientIndex + 1
          clients := (u.clientIndex + 1, u.ledger.count) ::
            (removeIoConnectionClient u (u.clientIndex + 1)).clients }))) := by
  unfold onConnectRequest at h
  by_cases hs : u.server.state ≠ .started
  · rw [if_pos hs] at h
    exact .inl ⟨(Option.some.inj h).symm, fun hall => hs hall.1⟩
  rw [if_neg hs] at h
  by_cases hclient : u.server.client = false
  · rw [if_pos hclient] at h
    exact .inl ⟨(Option.some.inj h).symm, fun hall => by cases hclient.symm.trans hall.2.1⟩
  rw [if_neg hclient] at h
  by_cases hsock : sock < 0
  · rw [if_pos hsock] at h
    exact .inl ⟨(Option.some.inj h).symm, fun hall => absurd hsock (not_lt.mpr hall.2.2)⟩
  rw [if_neg hsock] at h
  refine .inr ⟨⟨not_not.mp hs, by simpa using hclient, not_lt.mp hsock⟩, ?_⟩
  cases created with
  | false =>
    rw [if_pos rfl] at h
    exact .inl ⟨rfl, (Option.some.inj h).symm⟩
  | true =>
    rw [if_neg nofun] at h
    have hobject : (createIoConnectionClient (openFd u sock) u.ledger.count sock).objects
        u.ledger.count = some ⟨setIoFd { ioClient := true } sock, .entry (u.clientIndex + 1)⟩ :=
      Function.update_self ..
    obtain ⟨o, ho, hmap⟩ := Option.bind_eq_some_iff.mp h
    obtain rfl := Option.some.inj (hobject.symm.trans ho)
    obtain ⟨⟨w, res⟩, hstart, rfl⟩ := Option.map_eq_some_iff.mp hmap
    unfold startIoClient at hstart
    cases alive with
    | false =>
      rw [if_pos rfl] at hstart
      obtain ⟨rfl, rfl⟩ := Prod.mk.inj (Option.some.inj hstart)
      exact .inr (.inl ⟨rfl, rfl, rfl⟩)
    | true =>
      rw [if_neg nofun, startAccepted_ok (not_lt.mp hsock), if_neg (lt_irrefl 0)] at hstart
      obtain ⟨⟨io, k, res'⟩, hadd, he⟩ := Option.map_eq_some_iff.mp hstart
      obtain ⟨rfl, rfl⟩ := Prod.mk.inj he
      refine .inr (.inr ⟨rfl, rfl, io, k, res', hadd, ?_⟩)
      simp only [lt_irrefl, if_false, createIoConnectionClient, Process.setObject, Process.setIo,
        Function.update_idem]
      rfl

theorem Inv.make {u v : Process} (hi : Inv none u) {sock : Int} (h0 : 0 ≤ sock)
    (hsock : u.kernel.isOpen sock = false) {c : TcpIoConnection} {owner : Owner}
    (hc : c.state = .started ∧ c.ioMode = owner.mode ∧ c.socketFd = sock) {io : IoModule Member}
    {k : Kernel} {res : Int} {refused : Bool}
    (hadd : addIoMember u.io (u.kernel.openFd sock) (some (.connection u.ledger.count, sock))
      refused = some (io, k, res))
    (hv : ∃ clients index ioConnection,
      v = { ((Sockets.openFd u sock).setObject u.ledger.count ⟨c, owner⟩).setIo io k with
        clients := clients, clientIndex := index, ioConnection := ioConnection })
    (hnew : Owns v owner u.ledger.count)
    (hold : ∀ owner' n, Owns v owner' n → (owner' = owner ∧ n = u.ledger.count) ∨
      Owns u owner' n) : Inv none v := by
  have hmutex : u.io.ioMembersMutex = false := addIoMember_mutex h0 hadd
  have hopen : Open (Sockets.openFd u sock).ledger u.ledger.count sock := open_obtain hi.ledger
  have hobject := (hi.openFd hsock).setObject (Nat.lt_succ_self _) hi.fresh.1 ⟨c, owner⟩
  obtain ⟨hadded, hkernel, hgrows, hlocked⟩ := hobject.addMember h0 hopen.number
    ⟨_, Function.update_self ..⟩ hadd
  have howned := hadded.setOwners hv (fun owner' n hn => ?_) fun owner' n hn => ?_
  · obtain ⟨clients, index, ioConnection, rfl⟩ := hv
    exact howned.hold sock ⟨hopen, (congrFun hkernel sock).trans (Function.update_self ..),
      .inr ⟨owner, hnew⟩, _, Function.update_self .., hc.2.2⟩
  · obtain ⟨fd, hcur⟩ := hi.owned owner' n hn
    exact .inr (.inl (hgrows n ⟨fd, hcur.table hmutex⟩))
  · rcases hold owner' n hn with ⟨rfl, rfl⟩ | hn
    · refine ⟨sock, hopen, ⟨_, Function.update_self .., rfl, hc⟩, fun hm => ?_⟩
      exact hlocked.resolve_left fun hl => by cases hm.symm.trans hl.1
    · exact hadded.owned owner' n hn

theorem connectRequest_inv {u v : Process} {sock : Int} {created alive refused : Bool}
    (hi : Inv none u) (hmutex : u.io.ioMembersMutex = false)
    (hsock : 0 ≤ sock → u.kernel.isOpen sock = false)
    (hg : u.server.state = .started → u.server.client = true → 0 ≤ sock → created = true)
    (h : onConnectRequest u sock created alive refused = some v) : Inv none v := by
  rcases onConnectRequest_cases h with ⟨rfl, -⟩ | ⟨⟨hs, hclient, h0⟩, hcase⟩
  · exact hi
  rcases hcase with ⟨rfl, -⟩ | ⟨-, -, rfl⟩ | ⟨-, -, io, k, res, hadd, rfl⟩
  · cases hg hs hclient h0
  · have hobject := (hi.openFd (hsock h0)).setObject (Nat.lt_succ_self _) hi.fresh.1
      ⟨setIoFd { ioClient := true } sock, .entry (u.clientIndex + 1)⟩
    have hsame {owner : Owner} {n : Nat} (hn : Owns (removeIoConnectionClient
        (createIoConnectionClient (openFd u sock) u.ledger.count sock) (u.clientIndex + 1))
        owner n) : Owns u owner n := by
      cases owner with
      | entry id =>
        obtain ⟨hmem, hid⟩ := List.mem_filter.mp hn
        have hne : id ≠ u.clientIndex + 1 := by simpa using hid
        rcases List.mem_cons.mp hmem with he | hold
        · exact absurd (Prod.mk.inj he).1 hne
        · exact (List.mem_filter.mp hold).1
      | client j => exact hn
    have howned := hobject.setOwners ⟨_, _, _, rfl⟩ (fun owner n hn => ?_)
      fun owner n hn => hobject.owned owner n (hsame hn)
    · exact howned.closeFd (open_obtain hi.ledger) fun owner hn => hi.fresh.1 owner (hsame hn)
    · obtain ⟨fd, hc⟩ := hi.owned owner n hn
      exact .inr (.inl ⟨fd, hc.table hmutex⟩)
  · refine hi.make h0 (hsock h0) ⟨rfl, rfl, rfl⟩ hadd ⟨_, _, _, rfl⟩ List.mem_cons_self
      fun owner n hn => ?_
    cases owner with
    | entry id =>
      rcases List.mem_cons.mp hn with he | hold
      · obtain ⟨rfl, rfl⟩ := Prod.mk.inj he
        exact .inl ⟨rfl, rfl⟩
      · exact .inr (List.mem_filter.mp hold).1
    | client j => exact .inr hn

theorem connect_inv {u v : Process} {j : Nat} {port sock : Int} {connected refused : Bool}
    (hi : Inv none u) (hsock : 0 ≤ port → 0 ≤ sock → u.kernel.isOpen sock = false)
    (h : connect u j port sock connected refused = some v) : Inv none v := by
  obtain ⟨hnew, -⟩ := hi.fresh
  unfold connect at h
  by_cases hgood : 0 ≤ port ∧ 0 ≤ sock
  · have hopened := hi.openFd (hsock hgood.1 hgood.2)
    have hopen : Open (openFd u sock).ledger u.ledger.count sock := open_obtain hi.ledger
    cases connected with
    | false =>
      have hfail : startConnect { ioClient := true } port sock false =
          ⟨{ ioClient := true, socketFd := -1 }, [sock], -1⟩ := by
        simp [startConnect, not_lt.mpr hgood.1, not_lt.mpr hgood.2]
      simp only [hfail, if_pos hgood, Int.reduceNeg, Int.reduceLT, if_true] at h
      obtain rfl := Option.some.inj h
      exact hopened.closeFd hopen hnew
    | true =>
      simp only [startConnect_ok hgood.1 hgood.2, if_pos hgood, lt_irrefl, if_false] at h
      obtain ⟨⟨io, k, res⟩, hadd, rfl⟩ := Option.map_eq_some_iff.mp h
      by_cases hres : res < 0
      · simp only [if_pos hres]
        obtain ⟨hadded, hkernel, -, hlocked⟩ := (hopened.setObject (Nat.lt_succ_self _) hnew
          ⟨(Connection.stop (connectedTo sock)).conn, .client j⟩).addMember hgood.2 hopen.number
            ⟨_, Function.update_self ..⟩ hadd
        have hfresh : (openFd u sock).kernel.isOpen sock = true := Function.update_self ..
        by_cases hfd : sock = 0
        · subst hfd
          exact hadded.hold 0 ⟨hopen, (congrFun hkernel 0).trans hfresh,
            .inl ⟨0, hlocked.resolve_left fun hl => hres.ne hl.2⟩, _, Function.update_self .., rfl⟩
        · have hclosed : (Connection.stop (connectedTo sock)).closed = [sock] := by
            simp [Connection.stop, connectedTo, hfd]
          rw [hclosed]
          exact hadded.closeFd hopen hnew
      · simp only [if_neg hres]
        refine hi.make hgood.2 (hsock hgood.1 hgood.2) ⟨rfl, rfl, rfl⟩ hadd ⟨_, _, _, rfl⟩
          (Function.update_self ..) fun owner n hn => ?_
        cases owner with
        | entry id => exact .inr hn
        | client j' =>
          by_cases hj : j' = j
          · subst hj
            obtain rfl : u.ledger.count = n := by simpa [Owns] using hn
            exact .inl ⟨rfl, rfl⟩
          · have hold : u.ioConnection j' = some n := by simpa [Owns, hj] using hn
            exact .inr hold
  · have hfail : startConnect { ioClient := true } port sock connected =
        ⟨(startConnect { ioClient := true } port sock connected).conn, [], -1⟩ := by
      by_cases hport : port < 0
      · simp [startConnect, hport]
      · have hneg : sock < 0 := not_le.mp fun h0 => hgood ⟨not_lt.mp hport, h0⟩
        simp [startConnect, hport, hneg]
    rw [hfail] at h
    simp only [if_neg hgood, Int.reduceNeg, Int.reduceLT, if_true] at h
    obtain rfl := Option.some.inj h
    exact hi

theorem disconnect_cases {u v : Process} {j : Nat} (hi : Inv none u)
    (h : disconnect u j = some v) :
    (u.ioConnection j = none ∧ v = u) ∨ ∃ n fd o, u.ioConnection j = some n ∧
      Current u (.client j) n fd ∧ u.objects n = some o ∧ o.conn.socketFd = fd ∧
      v = closeAll { u.setObject n { o with conn := (Connection.stop o.conn).conn } with
        ioConnection := Function.update u.ioConnection j none }
        (if fd = 0 then [] else [fd]) ∧
      (fd = 0 → (Connection.stop o.conn).conn.socketFd = 0) := by
  unfold disconnect at h
  cases hj : u.ioConnection j with
  | none =>
    rw [hj] at h
    exact .inl ⟨rfl, (Option.some.inj h).symm⟩
  | some n =>
    rw [hj] at h
    obtain ⟨o, ho, rfl⟩ := Option.map_eq_some_iff.mp h
    obtain ⟨fd, hc⟩ := hi.owned (.client j) n hj
    obtain ⟨-, hstate, hmode, rfl⟩ := hc.of_object ho
    have hres : (Connection.stop o.conn).res = 0 := by
      by_cases hfd : o.conn.socketFd = 0
      · simp [Connection.stop, hstate, hfd]
      · simp [Connection.stop, hstate, hfd]
    have hclosed : (Connection.stop o.conn).closed =
        if o.conn.socketFd = 0 then [] else [o.conn.socketFd] := by
      have hmode : o.conn.ioMode = .client := hmode
      by_cases hfd : o.conn.socketFd = 0
      · simp [Connection.stop, hstate, hfd]
      · simp [Connection.stop, hstate, hfd, hmode]
    refine .inr ⟨n, _, o, rfl, hc, ho, rfl, ?_, fun hfd => by simp [Connection.stop, hstate, hfd]⟩
    rw [hres, if_neg (lt_irrefl 0), hclosed]

theorem Inv.disowned {u : Process} (hi : Inv none u) {j n : Nat}
    (hj : u.ioConnection j = some n) (owner : Owner) :
    ¬Owns { u with ioConnection := Function.update u.ioConnection j none } owner n := by
  cases owner with
  | entry id => exact fun hn => nomatch hi.owner_unique (a := .entry id) (b := .client j) hn hj
  | client j' =>
    intro hn
    by_cases hne : j' = j
    · simp [Owns, hne] at hn
    · have hold : u.ioConnection j' = some n := by simpa [Owns, hne] using hn
      exact hne (Owner.client.inj (hi.owner_unique (a := .client j') (b := .client j) hold hj))

theorem disconnect_inv {u v : Process} {j : Nat} (hi : Inv none u)
    (hg : Careful u (.disconnect j)) (h : disconnect u j = some v) : Inv none v := by
  rcases disconnect_cases hi h with ⟨-, rfl⟩ | ⟨n, fd, o, hj, hc, ho, hfd, rfl, hstop⟩
  · exact hi
  have hun := hi.disowned hj
  have hdropped : Inv (some n) { u with
      ioConnection := Function.update u.ioConnection j none } := by
    refine (hi.weaken n).setOwners ⟨_, _, _, rfl⟩ (fun owner m hm => ?_) fun owner m hm => ?_
    · cases owner with
      | entry id => exact .inl hm
      | client j' =>
        by_cases hne : j' = j
        · subst hne
          exact .inr (.inr (hj.symm.trans hm))
        · exact .inl (by simpa [Owns, hne] using hm)
    · cases owner with
      | entry id => exact hi.owned (.entry id) m hm
      | client j' =>
        by_cases hne : j' = j
        · simp [Owns, hne] at hm
        · exact hi.owned (.client j') m (by simpa [Owns, hne] using hm)
  have hobject := hdropped.setObject (hi.objects n o ho) hun
    { o with conn := (Connection.stop o.conn).conn }
  by_cases h0 : fd = 0
  · rw [if_pos h0]
    exact hobject.hold fd ⟨hc.ledger, hc.kernel hi, .inl (hg n o hj ho (hfd.trans h0)), _,
      Function.update_self .., (hstop h0).trans h0.symm⟩
  · rw [if_neg h0]
    exact hobject.closeFd hc.ledger hun

theorem callback_keeps {c c' : TcpIoConnection} {error : Bool} {incoming : Incoming}
    {errors : RecvErrors} {call : Option ClientCall}
    (h : callback c error incoming errors = some (c', call)) :
    c'.state = c.state ∧ c'.ioMode = c.ioMode ∧ c'.socketFd = c.socketFd := by
  cases error with
  | true =>
    obtain ⟨rfl, -⟩ := Prod.mk.inj (Option.some.inj h)
    exact ⟨rfl, rfl, rfl⟩
  | false =>
    obtain ⟨out, hout, he⟩ := Option.map_eq_some_iff.mp h
    obtain ⟨buffer, hconn⟩ := onReadAvailable_conn hout
    obtain ⟨rfl, -⟩ := Prod.mk.inj he
    rw [hconn]
    exact ⟨rfl, rfl, rfl⟩

theorem callback_dead {c c' : TcpIoConnection} {error : Bool} {incoming : Incoming}
    {errors : RecvErrors} {call : Option ClientCall} (hc : c.ioClient = false)
    (h : callback c error incoming errors = some (c', call)) : call = none := by
  cases error with
  | true =>
    obtain ⟨-, rfl⟩ := Prod.mk.inj (Option.some.inj h)
    simp [onIoError, hc]
  | false =>
    obtain ⟨out, hout, he⟩ := Option.map_eq_some_iff.mp h
    obtain ⟨-, rfl⟩ := Prod.mk.inj he
    unfold onReadAvailable at hout
    split_ifs at hout
    · rw [← Option.some.inj hout]
    · rw [← Option.some.inj hout]
    · rw [← Option.some.inj hout]

/-- An event that is no close only reads; of a close it is the owner that reacts. -/
theorem dispatchEvent_cases {u v : Process} {n : Nat} {error refused : Bool}
    {incoming : Incoming} {errors : RecvErrors}
    (h : dispatchEvent u n error incoming errors refused = some v) :
    ∃ o c call, u.objects n = some o ∧
      callback { o.conn with ioClient := alive u n o } error incoming errors = some (c, call) ∧
      c.state = o.conn.state ∧ c.ioMode = o.conn.ioMode ∧ c.socketFd = o.conn.socketFd ∧
      ((call ≠ some .handleEvent ∧ v = u.setObject n { o with conn := c }) ∨
        (call = some .handleEvent ∧ alive u n o = true ∧
          handleEvent (u.setObject n { o with conn := c }) n { o with conn := c } refused =
            some v)) := by
  obtain ⟨o, ho, hrest⟩ := Option.bind_eq_some_iff.mp h
  obtain ⟨⟨c, call⟩, hcall, hv⟩ := Option.bind_eq_some_iff.mp hrest
  obtain ⟨hstate, hmode, hfd⟩ := callback_keeps hcall
  refine ⟨o, c, call, ho, hcall, hstate, hmode, hfd, ?_⟩
  by_cases hclose : call = some .handleEvent
  · refine .inr ⟨hclose, ?_, ?_⟩
    · by_contra hdead
      cases hclose.symm.trans (callback_dead (Bool.eq_false_iff.mpr hdead) hcall)
    · simpa only [if_pos hclose] using hv
  · simp only [if_neg hclose] at hv
    exact .inl ⟨hclose, (Option.some.inj hv).symm⟩

theorem event_inv {u v : Process} {fd : Int} {n : Nat} {error refused : Bool}
    {incoming : Incoming} {errors : RecvErrors} (hi : Inv none u)
    (hmutex : u.io.ioMembersMutex = false) (hfd : u.io.ioMembers fd = some (.connection n))
    (hg : Careful u (.event fd error incoming errors refused))
    (h : dispatchEvent u n error incoming errors refused = some v) : Inv none v := by
  obtain ⟨o, c, call, ho, hcall, hstate, hmode, hsock, hcase⟩ := dispatchEvent_cases h
  have hread := hi.keepObject ho hstate hmode hsock
  rcases hcase with ⟨-, rfl⟩ | ⟨rfl, halive, hevent⟩
  · exact hread
  · obtain ⟨conn, owner⟩ := o
    cases owner with
    | entry id =>
      have hmem : (id, n) ∈ u.clients := by simpa [alive] using halive
      rw [halive] at hcall
      exact absurd hcall (hg n _ id c hfd ho rfl hmem)
    | client j =>
      obtain rfl := Option.some.inj hevent
      refine hread.setOwners ⟨_, _, _, rfl⟩ (fun owner m hm => .inr (.inl ?_)) fun owner m hm => ?_
      · obtain ⟨fd', hc⟩ := hread.owned owner m hm
        exact ⟨fd', hc.table hmutex⟩
      · cases owner with
        | entry id => exact hread.owned (.entry id) m hm
        | client j' =>
          by_cases hj : j' = j
          · simp [Owns, hj] at hm
          · have hold : u.ioConnection j' = some m := by
              simpa [Owns, hj, Process.setObject] using hm
            exact hread.owned (.client j') m hold

theorem Inv.setState {u : Process} (hi : Inv none u) (state : ComponentState) :
    Inv none { u with state := state } :=
  hi.setServer ⟨state, u.server, u.io, u.kernel, u.ledger, rfl⟩ ⟨hi.ledger, rfl, rfl, rfl⟩
    (fun _ _ hn hfd => ⟨hn, hfd⟩) (fun _ _ => Iff.rfl) id fun hs =>
      ⟨(hi.listener hs).latest, (hi.listener hs).kernel, (hi.listener hs).ioEntry⟩

/-- Without clients only the listener is stopped. -/
theorem stopService_inv {u v : Process} {order : List (Nat × Bool)} {refused : Bool}
    (hi : Inv none u) (hperm : (order.map Prod.fst).Perm (u.clients.map Prod.snd))
    (hg : u.state = .started → u.clients = []) (h : stopService u order refused = some v) :
    Inv none v := by
  by_cases hs : u.state = .started
  · rw [stopService, if_neg (not_not.mpr hs)] at h
    obtain ⟨w, hclients, hrest⟩ := Option.bind_eq_some_iff.mp h
    obtain ⟨x, hstop, rfl⟩ := Option.map_eq_some_iff.mp hrest
    have hnil := hg hs
    rw [hnil] at hperm
    obtain rfl : order = [] := List.map_eq_nil_iff.mp hperm.eq_nil
    obtain rfl : u = w := Option.some.inj hclients
    have hsame : { u with clients := [] } = u := by rw [← hnil]
    rw [hsame] at hstop
    exact (stopServer_inv hi hstop).setState .initialized
  · rw [stopService, if_pos hs] at h
    obtain rfl := Option.some.inj h
    exact hi.setState .initialized

theorem step_inv {u v : Process} {a : Act} (hi : Inv none u) (hg : Careful u a)
    (h : step u a = some v) : Inv none v := by
  cases a with
  | startService a =>
    obtain ⟨hsock, hstart⟩ := Option.ite_none_right_eq_some.mp h
    exact startService_inv hi hsock hstart
  | stopService order refused =>
    obtain ⟨hperm, hstop⟩ := Option.ite_none_right_eq_some.mp h
    exact stopService_inv hi hperm hg hstop
  | connectRequest fd sock created alive refused =>
    obtain ⟨⟨hmutex, hsock⟩, hrest⟩ := Option.ite_none_right_eq_some.mp h
    split at hrest
    · exact connectRequest_inv hi hmutex hsock hg hrest
    · cases hrest
  | listenerError fd refused =>
    obtain ⟨-, hrest⟩ := Option.ite_none_right_eq_some.mp h
    split at hrest
    · exact stopServer_inv hi hrest
    · cases hrest
  | connect j port sock connected refused =>
    obtain ⟨hsock, hconnect⟩ := Option.ite_none_right_eq_some.mp h
    exact connect_inv hi hsock hconnect
  | disconnect j => exact disconnect_inv hi hg h
  | event fd error incoming errors refused =>
    obtain ⟨hmutex, hrest⟩ := Option.ite_none_right_eq_some.mp h
    split at hrest
    · next n hfd => exact event_inv hi hmutex hfd hg hrest
    · cases hrest

/-! Every other step leaks a socket. -/

theorem leaked {u : Process} {n : Nat} {fd : Int} (hn : u.ledger.number n = some fd)
    (hopen : u.ledger.closes n = 0) (hheld : ¬Held u n fd) : ¬Conserved u := by
  intro hc
  cases hopen.symm.trans ((hc n fd hn).2 hheld)

theorem connectRequest_leaks {u v : Process} {fd sock : Int} {created alive refused : Bool}
    (hi : Inv none u) (hg : ¬Careful u (.connectRequest fd sock created alive refused))
    (h : onConnectRequest u sock created alive refused = some v) : ¬Conserved v := by
  simp only [Careful, Classical.not_imp] at hg
  obtain ⟨hs, hclient, h0, hcreated⟩ := hg
  obtain ⟨hnew, hnotin⟩ := hi.fresh
  have hopen : Open (openFd u sock).ledger u.ledger.count sock := open_obtain hi.ledger
  rcases onConnectRequest_cases h with ⟨-, hnot⟩ | ⟨-, ⟨-, rfl⟩ | ⟨hc, -⟩ | ⟨hc, -⟩⟩
  · exact absurd ⟨hs, hclient, h0⟩ hnot
  · refine leaked hopen.number hopen.closes fun hheld => ?_
    rcases hheld.1 with htable | ⟨owner, howner⟩
    · exact hnotin htable
    · exact hnew owner howner
  · exact absurd hc hcreated
  · exact absurd hc hcreated

/-- Descriptor 0 is not closed, and the last one that had it lets it go. -/
theorem disconnect_leaks {u v : Process} {j : Nat} (hi : Inv none u)
    (hg : ¬Careful u (.disconnect j)) (h : disconnect u j = some v) : ¬Conserved v := by
  simp only [Careful, not_forall] at hg
  obtain ⟨n, o, hj, ho, h0, hnotin⟩ := hg
  rcases disconnect_cases hi h with ⟨hnone, -⟩ | ⟨m, fd, o', hj', hc, ho', hfd, rfl, -⟩
  · cases hnone.symm.trans hj
  · obtain rfl := Option.some.inj (hj.symm.trans hj')
    obtain rfl := Option.some.inj (ho.symm.trans ho')
    rw [if_pos (hfd.symm.trans h0)]
    refine leaked hc.ledger.number hc.ledger.closes fun hheld => ?_
    rcases hheld.1 with htable | ⟨owner, howner⟩
    · exact hnotin htable
    · exact hi.disowned hj owner howner

theorem stopEntry_cases {u v : Process} {n : Nat} {o : ConnObject} {refused : Bool}
    (hmode : o.conn.ioMode = .server) (h : stopEntry u n o refused = some v) :
    ∃ io k, v = (u.setIo io k).setObject n { o with conn := (Connection.stop o.conn).conn } ∧
      ∀ fd m, io.ioMembers fd = some m → fd ≠ o.conn.socketFd ∧ u.io.ioMembers fd = some m := by
  obtain ⟨⟨io, k, res⟩, hremove, rfl⟩ := Option.map_eq_some_iff.mp h
  rw [(stop_server hmode).1]
  exact ⟨io, k, rfl, fun fd m hm => removeIoMember_table hremove hm⟩

theorem event_leaks {u v : Process} {fd : Int} {n : Nat} {error refused : Bool}
    {incoming : Incoming} {errors : RecvErrors} (hi : Inv none u)
    (hfd : u.io.ioMembers fd = some (.connection n))
    (hg : ¬Careful u (.event fd error incoming errors refused))
    (h : dispatchEvent u n error incoming errors refused = some v) : ¬Conserved v := by
  simp only [Careful, not_forall, not_not] at hg
  obtain ⟨n', o, id, c, hfd', ho, howner, hmem, hclose⟩ := hg
  obtain rfl := Member.connection.inj (Option.some.inj (hfd.symm.trans hfd'))
  obtain ⟨o', c', call, ho', hcall, hstate, hmode, hsock, hcase⟩ := dispatchEvent_cases h
  obtain rfl := Option.some.inj (ho.symm.trans ho')
  have halive : alive u n o = true := by simpa [alive, howner] using hmem
  rw [halive, hclose] at hcall
  obtain ⟨rfl, rfl⟩ := Prod.mk.inj (Option.some.inj hcall)
  obtain ⟨fd', hc⟩ := hi.owned (.entry id) n hmem
  obtain ⟨-, -, hserver, rfl⟩ := hc.of_object ho
  rcases hcase with ⟨hnot, -⟩ | ⟨-, -, hevent⟩
  · exact absurd rfl hnot
  · simp only [handleEvent, howner] at hevent
    obtain ⟨w, hstop, rfl⟩ := Option.map_eq_some_iff.mp hevent
    obtain ⟨io, k, rfl, htable⟩ := stopEntry_cases (hmode.trans hserver) hstop
    refine leaked hc.ledger.number hc.ledger.closes fun hheld => ?_
    rcases hheld.1 with ⟨fd', hin⟩ | ⟨owner, hown⟩
    · obtain ⟨hne, hold⟩ := htable fd' _ hin
      have hnumber := (hi.table fd' n hold).1
      rw [hc.ledger.number] at hnumber
      exact hne ((Option.some.inj hnumber).symm.trans hsock.symm)
    · cases owner with
      | entry id' =>
        obtain ⟨hold, hid⟩ := List.mem_filter.mp hown
        have hne : id' ≠ id := by simpa using hid
        exact hne (Owner.entry.inj
          (hi.owner_unique (a := .entry id') (b := .entry id) hold hmem))
      | client j => exact nomatch hi.owner_unique (a := .client j) (b := .entry id) hown hmem

/-- Stopping client entries takes each of their connections out of the table, and keeps
sockets, listener and clients. -/
theorem stopClients_cases {u v : Process} {order : List (Nat × Bool)}
    (hmode : ∀ c ∈ order, ∀ o, u.objects c.1 = some o → o.conn.ioMode = .server)
    (h : stopClients u order = some v) :
    v.ledger = u.ledger ∧ v.server = u.server ∧ v.ioConnection = u.ioConnection ∧
      (∀ fd m, v.io.ioMembers fd = some m → u.io.ioMembers fd = some m) ∧
      ∀ c ∈ order, (∀ o fd, u.objects c.1 = some o → u.io.ioMembers fd = some (.connection c.1) →
        o.conn.socketFd = fd) → ¬InTable v c.1 := by
  induction order generalizing u with
  | nil =>
    obtain rfl : u = v := Option.some.inj h
    exact ⟨rfl, rfl, rfl, fun _ _ hm => hm, List.forall_mem_nil _⟩
  | cons c rest ih =>
    obtain ⟨n, refused⟩ := c
    obtain ⟨o, ho, hbind⟩ := Option.bind_eq_some_iff.mp h
    obtain ⟨w, hstop, hrest⟩ := Option.bind_eq_some_iff.mp hbind
    have hserver := hmode (n, refused) (by simp) o ho
    obtain ⟨io, k, rfl, htable⟩ := stopEntry_cases hserver hstop
    have hmode' : ∀ c ∈ rest, ∀ o', ((u.setIo io k).setObject n
        { o with conn := (Connection.stop o.conn).conn }).objects c.1 = some o' →
        o'.conn.ioMode = .server := by
      intro c hc o' ho'
      by_cases hn : c.1 = n
      · obtain rfl : _ = o' := by simpa [Process.setObject, hn] using ho'
        exact (stop_server hserver).2
      · exact hmode c (List.mem_cons_of_mem _ hc) o'
          (by simpa [Process.setObject, Process.setIo, hn] using ho')
    obtain ⟨hledger, hsame, hclients, hshrinks, habsent⟩ := ih hmode' hrest
    refine ⟨hledger, hsame, hclients, fun fd m hm => (htable fd m (hshrinks fd m hm)).2,
      fun c hc hown => ?_⟩
    have hgone (hn : c.1 = n) (fd : Int) : io.ioMembers fd ≠ some (.connection c.1) := fun hfd => by
      obtain ⟨hne, hold⟩ := htable fd _ hfd
      exact hne (hown o fd (hn ▸ ho) hold).symm
    rcases List.mem_cons.mp hc with rfl | hc
    · rintro ⟨fd, hfd⟩
      exact hgone rfl fd (hshrinks fd _ hfd)
    · refine habsent c hc fun o' fd ho' hfd => ?_
      by_cases hn : c.1 = n
      · exact absurd hfd (hgone hn fd)
      · exact hown o' fd (by simpa [Process.setObject, Process.setIo, hn] using ho')
          (htable fd _ hfd).2

theorem stopService_leaks {u v : Process} {order : List (Nat × Bool)} {refused : Bool}
    (hi : Inv none u) (hperm : (order.map Prod.fst).Perm (u.clients.map Prod.snd))
    (hg : ¬Careful u (.stopService order refused)) (h : stopService u order refused = some v) :
    ¬Conserved v := by
  simp only [Careful, Classical.not_imp] at hg
  obtain ⟨hs, hsome⟩ := hg
  rw [stopService, if_neg (not_not.mpr hs)] at h
  obtain ⟨w, hclients, hrest⟩ := Option.bind_eq_some_iff.mp h
  obtain ⟨x, hstop, rfl⟩ := Option.map_eq_some_iff.mp hrest
  obtain ⟨out, hout, rfl⟩ := Option.map_eq_some_iff.mp hstop
  have hentry (c : Nat × Bool) (hc : c ∈ order) : ∃ id, (id, c.1) ∈ u.clients := by
    have hmem := hperm.mem_iff.mp (List.mem_map_of_mem hc)
    obtain ⟨⟨id, n⟩, hid, hn⟩ := List.mem_map.mp hmem
    exact ⟨id, hn ▸ hid⟩
  have hmode (c : Nat × Bool) (hc : c ∈ order) (o : ConnObject) (ho : u.objects c.1 = some o) :
      o.conn.ioMode = .server := by
    obtain ⟨id, hid⟩ := hentry c hc
    obtain ⟨fd, hcur⟩ := hi.owned (.entry id) c.1 hid
    exact (hcur.of_object ho).2.2.1
  obtain ⟨hledger, hserver, hio, -, habsent⟩ := stopClients_cases hmode hclients
  obtain ⟨⟨id, n⟩, hmem⟩ := List.exists_mem_of_ne_nil _ hsome
  obtain ⟨c, hc, rfl⟩ : ∃ c ∈ order, c.1 = n :=
    List.mem_map.mp (hperm.mem_iff.mpr (List.mem_map_of_mem (f := Prod.snd) hmem))
  obtain ⟨fd, hcur⟩ := hi.owned (.entry id) c.1 hmem
  have hgone : ¬InTable w c.1 := habsent c hc fun o fd' ho hfd' =>
    (hcur.of_object ho).2.2.2.trans
      (Option.some.inj (hcur.ledger.number.symm.trans (hi.table fd' _ hfd').1))
  have hkept : (if w.server.state = .started then w.ledger.close w.server.socketFd
      else w.ledger) = u.ledger := by
    rw [hserver, hledger]
    split_ifs with hs
    · exact close_of_none (hi.listener hs).latest
    · rfl
  rw [hkept]
  refine leaked hcur.ledger.number hcur.ledger.closes fun hheld => ?_
  rcases hheld.1 with ⟨fd', hin⟩ | ⟨owner, hown⟩
  · exact hgone ⟨fd', (stop_table hout).1 fd' _ hin⟩
  · cases owner with
    | entry id' => cases hown
    | client j =>
      have hold : u.ioConnection j = some c.1 := hio ▸ hown
      exact nomatch hi.owner_unique (a := .client j) (b := .entry id) hold hmem

theorem step_careful {u v : Process} {a : Act} (hi : Inv none u) (h : step u a = some v)
    (hc : Conserved v) : Careful u a := by
  by_contra hg
  cases a with
  | startService a => exact hg trivial
  | stopService order refused =>
    obtain ⟨hperm, hstop⟩ := Option.ite_none_right_eq_some.mp h
    exact stopService_leaks hi hperm hg hstop hc
  | connectRequest fd sock created alive refused =>
    obtain ⟨-, hrest⟩ := Option.ite_none_right_eq_some.mp h
    split at hrest
    · exact connectRequest_leaks hi hg hrest hc
    · cases hrest
  | listenerError fd refused => exact hg trivial
  | connect j port sock connected refused => exact hg trivial
  | disconnect j => exact disconnect_leaks hi hg h hc
  | event fd error incoming errors refused =>
    obtain ⟨-, hrest⟩ := Option.ite_none_right_eq_some.mp h
    split at hrest
    · next n hfd => exact event_leaks hi hfd hg hrest hc
    · cases hrest

/-- In every run the sockets are conserved all along exactly when all its steps are careful. -/
theorem conserved_iff {s u : Process} {ms : List (Move Process Act)} (hs : Fresh s)
    (h : Path step s ms u) :
    (∀ m ∈ ms, Conserved m.post) ↔ ∀ m ∈ ms, Careful m.pre m.act :=
  h.guarded_iff hs.inv (fun _ _ _ hi hg hstep => step_inv hi hg hstep) (fun _ hi => hi.conserved)
    fun _ _ _ hi hstep hc => step_careful hi hstep hc

/-- A service that is initialized and a running IoModule. -/
def newProcess : Process where
  state := .initialized
  server := { state := .initialized, port := 80, maxConnectionNumber := 8, client := true }
  io := { state := .started, wakeUpPipeFd := (5, 6), epollFd := 4, epollEvents := true }
  kernel := {
    isOpen := fun fd => decide (4 ≤ fd ∧ fd ≤ 6)
    interest := fun fd => decide (fd = 5) }

theorem newProcess_fresh : Fresh newProcess where
  server := nofun
  clients := rfl
  ioConnection _ := rfl
  objects _ := rfl
  ledger := rfl
  ioMembers _ := rfl

/-- The service accepts a connection, and a client connects. -/
theorem conserved_iff_two : ∃ ms u, Path step newProcess ms u ∧ u.ledger.count = 2 ∧
    ∀ m ∈ ms, Conserved m.post := by
  obtain ⟨u, hmeets, hcount⟩ : ∃ u, Meets step Careful newProcess
      [.startService ⟨3, true, true, false⟩, .connectRequest 3 7 true true false,
        .connect 0 80 8 true false] u ∧ u.ledger.count = 2 :=
    ⟨_, ⟨trivial, _, rfl, fun _ _ _ => rfl, _, rfl, trivial, _, rfl, rfl⟩, rfl⟩
  obtain ⟨ms, hp, hms⟩ := hmeets.path
  exact ⟨ms, u, hp, hcount, (conserved_iff newProcess_fresh hp).2 hms⟩

/-- A connection is accepted, and its peer closes. -/
theorem accepted_socket_leaks :
    ¬∀ (s u : Process) (ms : List (Move Process Act)), Fresh s → Path step s ms u →
      Conserved u := by
  intro h
  obtain ⟨u, hu, hnumber, hopen, hfd⟩ : ∃ u, run step newProcess
      [.startService ⟨3, true, true, false⟩, .connectRequest 3 7 true true false,
        .event 7 false ⟨[], true⟩ {} false] = some u ∧ u.ledger.number 0 = some 7 ∧
      u.ledger.closes 0 = 0 ∧ (u.objects 0).map (fun o => o.conn.socketFd) = some (-1) :=
    ⟨_, rfl, rfl, rfl, rfl⟩
  obtain ⟨ms, hp, -⟩ := path_of_run hu
  refine leaked hnumber hopen (fun hheld => ?_) (h newProcess u ms newProcess_fresh hp)
  obtain ⟨o, ho, h7⟩ := hheld.2
  rw [ho] at hfd
  cases (Option.some.inj hfd).symm.trans h7

end DericRpc.Sockets
