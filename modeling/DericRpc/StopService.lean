import DericRpc.IoServer
import DericRpc.Lib.Lts
import Mathlib.Data.List.Nodup

/-! RpcServiceImpl::stop against the IO thread: the clients are stopped and cleared in one
locked section, the listener is stopped behind it, and meanwhile the IO thread accepts
connections and handles their close events in steps of its own. -/
namespace DericRpc.StopService
open Common Connection Io IoServer Lts

/-- A RpcServiceClientEntry and the connection made for it; `attached` once setIoConnection
has been called. -/
structure ClientEntry where
  clientId : UInt32
  attached : Bool := false
  conn : TcpIoConnection

/-- How far onConnectRequest is behind createIoConnectionClient: `failed` is a
startIoClient that returned -1. -/
inductive AcceptStage where
  | created | attached | started | failed
  deriving DecidableEq

/-- How far the dispatch loop is with an event of a connection: it has taken the connection
from the table, its client's handleEvent is running, the connection is out of the table,
it is stopped. -/
inductive CloseStage where
  | found | handling | removed | stopped
  deriving DecidableEq

/-- What the IO thread is at. -/
inductive IoPhase where
  | idle
  | connecting
  | accepted (sock : Int)
  | accepting (stage : AcceptStage) (n : Nat) (sock : Int)
  | reacting (stage : CloseStage) (n : Nat)
  deriving DecidableEq

/-- Where RpcServiceImpl::stop is: in the section under m_clientsMutex, with the clients that
are still to be stopped, or behind it. -/
inductive StopPhase where
  | notCalled
  | clients (todo : List Nat)
  | removed (n : Nat) (todo : List Nat)
  | cleared
  | returned (res : Int)
  deriving DecidableEq

/-- m_clients has the numbers of the entries; `clientIndex` is the static counter of
getNewClientId. -/
structure Service where
  state : ComponentState := .started
  server : TcpIoServer
  clients : List (UInt32 × Nat) := []
  entries : Nat → Option ClientEntry := fun _ => none
  count : Nat := 0
  clientIndex : UInt32 := 0
  io : IoModule Member
  kernel : Kernel
  ioPhase : IoPhase := .idle
  stopPhase : StopPhase := .notCalled

def StopPhase.locksClients : StopPhase → Bool
  | .clients _ | .removed _ _ => true
  | _ => false

/-- The IO thread's steps, then those of stop. -/
inductive Act where
  | event (fd : Int)
  | accept (sock : Int)
  | create
  | attach
  | startConn (alive : Bool)
  | add (refused : Bool)
  | fail
  | handle (close : Bool)
  | remove (refused : Bool)
  | stopConn
  | erase
  | stopEnter (order : List Nat)
  | stopRemove (refused : Bool)
  | stopStopConn
  | stopClear
  | stopServer (refused : Bool)

def Service.setEntry (u : Service) (n : Nat) (e : ClientEntry) : Service :=
  { u with entries := Function.update u.entries n (some e) }

def removeIoConnectionClient (u : Service) (clientId : UInt32) : Service :=
  { u with clients := u.clients.filter fun c => c.1 ≠ clientId }

/-- createIoConnectionClient, and the new connection with setIoFd and setIoClient. -/
def createIoConnectionClient (u : Service) (sock : Int) : Service :=
  let clientId := u.clientIndex + 1
  { u with
    clientIndex := clientId
    clients := (clientId, u.count) :: (removeIoConnectionClient u clientId).clients
    entries := Function.update u.entries u.count
      (some { clientId := clientId, conn := setIoFd { ioClient := true } sock })
    count := u.count + 1
    ioPhase := .accepting .created u.count sock }

/-- The first half of a client entry's stop: the connection leaves the table. -/
def removeConnection (u : Service) (e : ClientEntry) (refused : Bool) : Option Service :=
  (removeIoMember u.io u.kernel (some e.conn.socketFd) refused).map fun (io, k, _) =>
    { u with io := io, kernel := k }

/-- The second half: the connection is stopped. -/
def stopConnection (u : Service) (n : Nat) (e : ClientEntry) : Service :=
  { u.setEntry n { e with conn := (Connection.stop e.conn).conn } with
    kernel := (Connection.stop e.conn).closed.foldl Kernel.close u.kernel }

/-- Sockets get numbers that are not open; m_clients is gone through in any order. -/
def step (u : Service) : Act → Option Service
  | .event fd =>
    if u.ioPhase = .idle ∧ u.io.ioMembersMutex = false then
      match u.io.ioMembers fd with
      | none => some u
      | some (.listener _) => some { u with ioPhase := .connecting }
      | some (.connection n) => some { u with ioPhase := .reacting .found n }
    else none
  | .accept sock =>
    if u.ioPhase = .connecting then
      if u.server.state ≠ .started ∨ u.server.client = false ∨ sock < 0 then
        some { u with ioPhase := .idle }
      else if u.kernel.isOpen sock = false then
        some { u with kernel := u.kernel.openFd sock, ioPhase := .accepted sock }
      else none
    else none
  | .create =>
    match u.ioPhase with
    | .accepted sock =>
      if u.stopPhase.locksClients = false then some (createIoConnectionClient u sock) else none
    | _ => none
  | .attach =>
    match u.ioPhase with
    | .accepting .created n sock => (u.entries n).map fun e =>
      { u.setEntry n { e with attached := true } with ioPhase := .accepting .attached n sock }
    | _ => none
  | .startConn alive =>
    match u.ioPhase with
    | .accepting .attached n sock => (u.entries n).map fun e =>
      if alive = false ∨ (startAccepted e.conn).2 < 0 then
        { u with ioPhase := .accepting .failed n sock }
      else
        { u.setEntry n { e with conn := (startAccepted e.conn).1 } with
          ioPhase := .accepting .started n sock }
    | _ => none
  | .add refused =>
    match u.ioPhase with
    | .accepting .started n _ => (u.entries n).bind fun e =>
      (addIoMember u.io u.kernel (some (.connection n, e.conn.socketFd)) refused).map
        fun (io, k, _) => { u with io := io, kernel := k, ioPhase := .idle }
    | _ => none
  | .fail =>
    match u.ioPhase with
    | .accepting .failed n sock =>
      if u.stopPhase.locksClients = false then (u.entries n).map fun e =>
        { removeIoConnectionClient u e.clientId with
          kernel := u.kernel.close sock, ioPhase := .idle }
      else none
    | _ => none
  -- the connection's m_ioClient.lock() finds an entry that m_clients still has
  | .handle close =>
    match u.ioPhase with
    | .reacting .found n => (u.entries n).map fun e =>
      if close = true ∧ hasClient u.clients e.clientId n = true then
        { u with ioPhase := .reacting .handling n }
      else { u with ioPhase := .idle }
    | _ => none
  | .remove refused =>
    match u.ioPhase with
    | .reacting .handling n => (u.entries n).bind fun e =>
      if e.attached = true then
        (removeConnection u e refused).map fun v => { v with ioPhase := .reacting .removed n }
      else some { u with ioPhase := .reacting .stopped n }
    | _ => none
  | .stopConn =>
    match u.ioPhase with
    | .reacting .removed n => (u.entries n).map fun e =>
      { stopConnection u n e with ioPhase := .reacting .stopped n }
    | _ => none
  | .erase =>
    match u.ioPhase with
    | .reacting .stopped n =>
      if u.stopPhase.locksClients = false then (u.entries n).map fun e =>
        { removeIoConnectionClient u e.clientId with ioPhase := .idle }
      else none
    | _ => none
  | .stopEnter order =>
    if u.stopPhase = .notCalled ∧ u.state = .started ∧
        order.Perm (u.clients.map Prod.snd) then
      some { u with stopPhase := .clients order }
    else none
  | .stopRemove refused =>
    match u.stopPhase with
    | .clients (n :: todo) => (u.entries n).bind fun e =>
      if e.attached = true then
        (removeConnection u e refused).map fun v => { v with stopPhase := .removed n todo }
      else some { u with stopPhase := .clients todo }
    | _ => none
  | .stopStopConn =>
    match u.stopPhase with
    | .removed n todo => (u.entries n).map fun e =>
      { stopConnection u n e with stopPhase := .clients todo }
    | _ => none
  | .stopClear =>
    if u.stopPhase = .clients [] then some { u with clients := [], stopPhase := .cleared } else none
  | .stopServer refused =>
    if u.stopPhase = .cleared then
      (u.server.stop u.io u.kernel refused).map fun out =>
        { u with
          server := out.server, io := out.io, kernel := out.kernel
          state := .initialized, stopPhase := .returned out.res }
    else none

/-- A service that has just been started: of the table it has the listener only. -/
structure Started (u : Service) : Prop where
  state : u.state = .started
  server : u.server.state = .started
  clients : u.clients = []
  entries : ∀ n, u.entries n = none
  ioMembers : ∀ fd m, u.io.ioMembers fd = some m →
    m = .listener u.server.socketFd ∧ u.kernel.isOpen fd = true
  ioPhase : u.ioPhase = .idle
  stopPhase : u.stopPhase = .notCalled

/-- stop has returned, and the IO thread is not in a callback. -/
def Stopped (u : Service) : Prop := (∃ res, u.stopPhase = .returned res) ∧ u.ioPhase = .idle

/-- Nothing of the service's clients is left. -/
def Empty (u : Service) : Prop :=
  u.clients = [] ∧ ∀ fd n, u.io.ioMembers fd ≠ some (.connection n)

/-- A client is created before stop enters its section, under an id that no client has, and
stop does not enter between createIoConnectionClient and setIoConnection. -/
def Apart (u : Service) : Act → Prop
  | .create => u.stopPhase = .notCalled ∧ ∀ c ∈ u.clients, c.1 ≠ u.clientIndex + 1
  | .stopEnter _ => ∀ n sock, u.ioPhase ≠ .accepting .created n sock
  | _ => True

/-! What holds in every state of a run that keeps the two threads apart. -/

def StopPhase.todo : StopPhase → List Nat
  | .clients todo => todo
  | .removed n todo => n :: todo
  | _ => []

def StopPhase.Behind : StopPhase → Prop
  | .cleared | .returned _ => True
  | _ => False

/-- A client that stop will still come to. -/
def Listed (u : Service) (n : Nat) : Prop :=
  match u.stopPhase with
  | .notCalled => n ∈ u.clients.map Prod.snd
  | .clients todo | .removed _ todo => n ∈ todo
  | .cleared | .returned _ => False

def Absent (u : Service) (n : Nat) : Prop := ∀ fd, u.io.ioMembers fd ≠ some (.connection n)

/-- An accepted socket that is not in the table yet. -/
def Free (u : Service) (sock : Int) : Prop :=
  u.io.ioMembers sock = none ∧ (u.server.state = .started → u.kernel.isOpen sock = true)

/-- A client that onConnectRequest is making. If stop came to it in between, the mutex of
the table is locked for good. -/
structure Coming (u : Service) (stage : AcceptStage) (n : Nat) (sock : Int) (e : ClientEntry) :
    Prop where
  entry : u.entries n = some e
  created : stage = .created → u.stopPhase = .notCalled
  attached : stage ≠ .created → e.attached = true
  absent : Absent u n
  own : ∀ m, (e.clientId, m) ∈ u.clients → m = n
  free : u.io.ioMembersMutex = false → Listed u n ∧ e.conn.socketFd = sock ∧ Free u sock

/-- A client whose connection has an event. -/
structure Reacting (u : Service) (stage : CloseStage) (n : Nat) (e : ClientEntry) : Prop where
  entry : u.entries n = some e
  attached : e.attached = true
  own : stage ≠ .found → ∀ m, (e.clientId, m) ∈ u.clients → m = n
  absent : stage = .removed ∨ stage = .stopped → Absent u n

def PhaseInv (u : Service) : IoPhase → Prop
  | .idle | .connecting => True
  | .accepted sock => u.io.ioMembersMutex = false → Free u sock
  | .accepting stage n sock => ∃ e, Coming u stage n sock e
  | .reacting stage n => ∃ e, Reacting u stage n e

structure Inv (u : Service) : Prop where
  entries : ∀ n e, u.entries n = some e → n < u.count ∧ e.conn.ioMode = .server
  clients : ∀ c ∈ u.clients, c.2 < u.count
  keys : ∀ id n m, (id, n) ∈ u.clients → (id, m) ∈ u.clients → n = m
  numbers : (u.clients.map Prod.snd).Nodup
  todo : u.stopPhase.todo.Nodup
  behind : u.stopPhase.Behind → u.clients = []
  table : ∀ fd n, u.io.ioMembers fd = some (.connection n) → Listed u n ∧
    ∃ e, u.entries n = some e ∧ e.attached = true ∧ e.conn.socketFd = fd
  opened : u.io.ioMembersMutex = false → u.server.state = .started →
    ∀ fd m, u.io.ioMembers fd = some m → u.kernel.isOpen fd = true
  ioPhase : PhaseInv u u.ioPhase

theorem Started.inv {u : Service} (h : Started u) : Inv u where
  entries n e he := by rw [h.entries n] at he; cases he
  clients c hc := by rw [h.clients] at hc; cases hc
  keys id n m hn := by rw [h.clients] at hn; cases hn
  numbers := by rw [h.clients]; exact List.nodup_nil
  todo := by rw [h.stopPhase]; exact List.nodup_nil
  behind _ := h.clients
  table fd n hn := absurd (h.ioMembers fd _ hn).1 nofun
  opened _ _ fd m hm := (h.ioMembers fd m hm).2
  ioPhase := by rw [h.ioPhase]; trivial

/-- What stop may do behind the IO thread's back. -/
theorem PhaseInv.kept {u v : Service} {p : IoPhase} (hp : PhaseInv u p)
    (htable : ∀ fd m, v.io.ioMembers fd = some m → u.io.ioMembers fd = some m)
    (hmutex : v.io.ioMembersMutex = false → u.io.ioMembersMutex = false)
    (hclients : ∀ c ∈ v.clients, c ∈ u.clients)
    (hserver : v.server.state = .started →
      u.server.state = .started ∧ v.kernel.isOpen = u.kernel.isOpen)
    (hentries : ∀ n e, u.entries n = some e → ∃ e', v.entries n = some e' ∧
      e'.clientId = e.clientId ∧ e'.attached = e.attached)
    (hcreated : ∀ n sock, p = .accepting .created n sock → u.stopPhase = .notCalled →
      v.stopPhase = .notCalled)
    (hfree : ∀ n e e', u.entries n = some e → v.entries n = some e' →
      (u.stopPhase ≠ .notCalled → e.attached = true) → v.io.ioMembersMutex = false →
      u.io.ioMembers e.conn.socketFd = none → Listed u n →
      Listed v n ∧ e'.conn.socketFd = e.conn.socketFd) :
    PhaseInv v p := by
  have habsent {n : Nat} (h : Absent u n) : Absent v n := fun fd hfd => h fd (htable fd _ hfd)
  have hsock {sock : Int} (h : Free u sock) : Free v sock := by
    refine ⟨?_, fun hs => ?_⟩
    · cases hm : v.io.ioMembers sock with
      | none => rfl
      | some m => cases h.1.symm.trans (htable sock m hm)
    · obtain ⟨hs, hopen⟩ := hserver hs
      exact (congrFun hopen sock).trans (h.2 hs)
  cases p with
  | idle => trivial
  | connecting => trivial
  | accepted sock => exact fun hm => hsock (hp (hmutex hm))
  | accepting stage n sock =>
    obtain ⟨e, he⟩ := hp
    obtain ⟨e', he', hid, hattached⟩ := hentries n e he.entry
    refine ⟨e', he', fun hs => hcreated n sock (by rw [hs]) (he.created hs),
      fun hs => hattached.trans (he.attached hs), habsent he.absent,
      fun m hm => he.own m (hid ▸ hclients _ hm), fun hm => ?_⟩
    obtain ⟨hlisted, rfl, hfd⟩ := he.free (hmutex hm)
    have hset (hs : u.stopPhase ≠ .notCalled) : e.attached = true :=
      he.attached fun hc => hs (he.created hc)
    obtain ⟨hlisted', heq⟩ := hfree n e e' he.entry he' hset hm hfd.1 hlisted
    exact ⟨hlisted', heq, hsock hfd⟩
  | reacting stage n =>
    obtain ⟨e, he⟩ := hp
    obtain ⟨e', he', hid, hattached⟩ := hentries n e he.entry
    exact ⟨e', he', hattached.trans he.attached,
      fun hs m hm => he.own hs m (hid ▸ hclients _ hm), fun hs => habsent (he.absent hs)⟩

theorem PhaseInv.kept_entries {u v : Service} {p : IoPhase} (hp : PhaseInv u p)
    (htable : ∀ fd m, v.io.ioMembers fd = some m → u.io.ioMembers fd = some m)
    (hmutex : v.io.ioMembersMutex = false → u.io.ioMembersMutex = false)
    (hclients : ∀ c ∈ v.clients, c ∈ u.clients)
    (hserver : v.server.state = .started →
      u.server.state = .started ∧ v.kernel.isOpen = u.kernel.isOpen)
    (hentries : v.entries = u.entries)
    (hcreated : ∀ n sock, p = .accepting .created n sock → u.stopPhase = .notCalled →
      v.stopPhase = .notCalled)
    (hlisted : ∀ n e, u.entries n = some e → (u.stopPhase ≠ .notCalled → e.attached = true) →
      v.io.ioMembersMutex = false → u.io.ioMembers e.conn.socketFd = none → Listed u n →
      Listed v n) :
    PhaseInv v p := by
  refine hp.kept htable hmutex hclients hserver (fun n e he => ⟨e, hentries ▸ he, rfl, rfl⟩)
    hcreated fun n e e' he he' hset hm hnone hl => ⟨hlisted n e he hset hm hnone hl, ?_⟩
  rw [hentries, he] at he'
  rw [Option.some.inj he']

theorem PhaseInv.setPhase {u : Service} {p : IoPhase} (hp : PhaseInv u p) (q : IoPhase) :
    PhaseInv { u with ioPhase := q } p :=
  hp.kept_entries (fun _ _ hm => hm) id (fun _ hc => hc) (fun hs => ⟨hs, rfl⟩) rfl
    (fun _ _ _ hs => hs) fun _ _ _ _ _ _ hl => hl

theorem Inv.setPhase {u : Service} (hi : Inv u) {p : IoPhase} (hp : PhaseInv u p) :
    Inv { u with ioPhase := p } where
  __ := hi
  ioPhase := hp.setPhase p

theorem startAccepted_keeps (c : TcpIoConnection) :
    (startAccepted c).1.socketFd = c.socketFd ∧ (startAccepted c).1.ioMode = c.ioMode := by
  unfold startAccepted
  split_ifs <;> exact ⟨rfl, rfl⟩

theorem Inv.coming {u : Service} (hi : Inv u) {stage : AcceptStage} {n : Nat} {sock : Int}
    {e : ClientEntry} (hphase : u.ioPhase = .accepting stage n sock)
    (he : u.entries n = some e) : Coming u stage n sock e := by
  have hp := hi.ioPhase
  rw [hphase] at hp
  obtain ⟨e', hc⟩ := hp
  obtain rfl := Option.some.inj (he.symm.trans hc.entry)
  exact hc

theorem Inv.reacting {u : Service} (hi : Inv u) {stage : CloseStage} {n : Nat} {e : ClientEntry}
    (hphase : u.ioPhase = .reacting stage n) (he : u.entries n = some e) :
    Reacting u stage n e := by
  have hp := hi.ioPhase
  rw [hphase] at hp
  obtain ⟨e', hr⟩ := hp
  obtain rfl := Option.some.inj (he.symm.trans hr.entry)
  exact hr

theorem stopConnection_eq {u : Service} {n : Nat} {e : ClientEntry}
    (h : e.conn.ioMode = .server) :
    stopConnection u n e = u.setEntry n { e with conn := (Connection.stop e.conn).conn } := by
  simp only [stopConnection, (stop_server h).1, List.foldl_nil]
  rfl

/-- The table only loses the entry under the connection's fd; where there is none, the mutex
stays locked. -/
theorem removeConnection_cases {u v : Service} {e : ClientEntry} {refused : Bool}
    (h : removeConnection u e refused = some v) :
    ∃ io k, v = { u with io := io, kernel := k } ∧ u.io.ioMembersMutex = false ∧
      k.isOpen = u.kernel.isOpen ∧
      (∀ fd m, io.ioMembers fd = some m →
        fd ≠ e.conn.socketFd ∧ u.io.ioMembers fd = some m) ∧
      (io.ioMembersMutex = true ∨ u.io.ioMembers e.conn.socketFd ≠ none) := by
  obtain ⟨⟨io, k, res⟩, hremove, rfl⟩ := Option.map_eq_some_iff.mp h
  refine ⟨io, k, rfl, ?_⟩
  have htable (fd : Int) (m : Member) (hm : io.ioMembers fd = some m) :
      fd ≠ e.conn.socketFd ∧ u.io.ioMembers fd = some m := removeIoMember_table hremove hm
  obtain ⟨hmutex, hopen, ⟨hnone, rfl⟩ | ⟨⟨m, hm⟩, rfl⟩⟩ := removeIoMember_cases hremove
  · exact ⟨hmutex, hopen, htable, .inl rfl⟩
  · exact ⟨hmutex, hopen, htable, .inr (by rw [hm]; nofun)⟩

theorem Inv.setEntry {u : Service} (hi : Inv u) {n : Nat} {e : ClientEntry} (hn : n < u.count)
    (hmode : e.conn.ioMode = .server) (habsent : Absent u n) {p : IoPhase}
    (hp : PhaseInv (u.setEntry n e) p) : Inv { u.setEntry n e with ioPhase := p } where
  __ := hi
  entries m e' he' := by
    by_cases hm : m = n
    · subst hm
      obtain rfl : e = e' := by simpa [Service.setEntry] using he'
      exact ⟨hn, hmode⟩
    · exact hi.entries m e' (by simpa [Service.setEntry, hm] using he')
  table fd m hm := by
    obtain ⟨hlisted, e', he', hrest⟩ := hi.table fd m hm
    have hne : m ≠ n := fun h => habsent fd (h ▸ hm)
    exact ⟨hlisted, e', by simpa [Service.setEntry, hne] using he', hrest⟩
  ioPhase := hp.setPhase p

theorem Inv.erase {u : Service} (hi : Inv u) {n : Nat} {id : UInt32} (habsent : Absent u n)
    (hown : ∀ m, (id, m) ∈ u.clients → m = n) :
    Inv { removeIoConnectionClient u id with ioPhase := .idle } where
  __ := hi
  clients c hc := hi.clients c (List.mem_of_mem_filter hc)
  keys id' m m' hm hm' := hi.keys id' m m' (List.mem_of_mem_filter hm) (List.mem_of_mem_filter hm')
  numbers := hi.numbers.sublist (List.filter_sublist.map Prod.snd)
  behind hb := by
    have hnil := hi.behind hb
    simp [removeIoConnectionClient, hnil]
  table fd m hm := by
    obtain ⟨hlisted, hentry⟩ := hi.table fd m hm
    refine ⟨?_, hentry⟩
    have hne : m ≠ n := fun h => habsent fd (h ▸ hm)
    cases hs : u.stopPhase with
    | notCalled =>
      rw [Listed, hs] at hlisted
      obtain ⟨⟨id', m'⟩, hmem, rfl⟩ := List.mem_map.mp hlisted
      have hid : id' ≠ id := fun h => hne (hown m' (h ▸ hmem))
      simpa [Listed, hs, removeIoConnectionClient] using ⟨id', hmem, hid⟩
    | clients todo => simpa [Listed, hs, removeIoConnectionClient] using hlisted
    | removed n' todo => simpa [Listed, hs, removeIoConnectionClient] using hlisted
    | cleared => simp [Listed, hs] at hlisted
    | returned res => simp [Listed, hs] at hlisted
  ioPhase := trivial

theorem Inv.absent {u v : Service} (hi : Inv u) {n : Nat} {e : ClientEntry} {refused : Bool}
    (he : u.entries n = some e) (h : removeConnection u e refused = some v) : Absent v n := by
  obtain ⟨io, k, rfl, -, -, htable, -⟩ := removeConnection_cases h
  intro fd hfd
  obtain ⟨hne, hold⟩ := htable fd _ hfd
  obtain ⟨-, e', he', -, hsock⟩ := hi.table fd n hold
  obtain rfl := Option.some.inj (he.symm.trans he')
  exact hne hsock.symm

theorem accept_inv {u v : Service} {sock : Int} (hi : Inv u)
    (h : step u (.accept sock) = some v) : Inv v := by
  obtain ⟨-, haccept⟩ := Option.ite_none_right_eq_some.mp h
  by_cases hready : u.server.state ≠ .started ∨ u.server.client = false ∨ sock < 0
  · rw [if_pos hready] at haccept
    obtain rfl := Option.some.inj haccept
    exact hi.setPhase trivial
  · rw [if_neg hready] at haccept
    obtain ⟨hclosed, rfl⟩ := enabled haccept
    have hstarted : u.server.state = .started := by
      by_contra hs
      exact hready (.inl hs)
    have hopened {fd : Int} (hfd : u.kernel.isOpen fd = true) :
        (u.kernel.openFd sock).isOpen fd = true := by
      by_cases hne : fd = sock
      · simp [Kernel.openFd, hne]
      · simpa [Kernel.openFd, hne] using hfd
    refine { hi with
      opened := fun hm hs fd m hfd => hopened (hi.opened hm hs fd m hfd)
      ioPhase := fun hm => ⟨?_, fun _ => by simp [Kernel.openFd]⟩ }
    cases hsock : u.io.ioMembers sock with
    | none => rfl
    | some m => cases hclosed.symm.trans (hi.opened hm hstarted sock m hsock)

/-- The new id is not in use, so no client leaves m_clients. -/
theorem create_inv {u v : Service} (hi : Inv u) (hg : Apart u .create)
    (h : step u .create = some v) : Inv v := by
  simp only [step] at h
  split at h
  · next sock hphase =>
    obtain ⟨-, rfl⟩ := enabled h
    obtain ⟨hstop, hfresh⟩ := hg
    have hfilter : (removeIoConnectionClient u (u.clientIndex + 1)).clients = u.clients :=
      List.filter_eq_self.mpr fun c hc => by simpa using hfresh c hc
    have hsock : u.io.ioMembersMutex = false → Free u sock := by
      simpa [PhaseInv, hphase] using hi.ioPhase
    have habsent : Absent u u.count := fun fd hfd => by
      obtain ⟨-, e, he, -⟩ := hi.table fd _ hfd
      exact (hi.entries _ e he).1.false
    have hmem {c : UInt32 × Nat} (hc : c ∈ (createIoConnectionClient u sock).clients) :
        c = (u.clientIndex + 1, u.count) ∨ c ∈ u.clients := by
      simpa [createIoConnectionClient, hfilter] using hc
    have hlisted {n : Nat} (hn : n = u.count ∨ Listed u n) :
        Listed (createIoConnectionClient u sock) n := by
      simpa [Listed, createIoConnectionClient, hstop, hfilter] using hn
    refine { hi with
      entries := fun n e he => ?_
      clients := fun c hc => ?_
      keys := fun id n m hn hm => ?_
      numbers := ?_
      behind := fun hb => ?_
      table := fun fd n hn => ?_
      ioPhase := ⟨{ clientId := u.clientIndex + 1, conn := setIoFd { ioClient := true } sock },
        Function.update_self .., fun _ => hstop, fun hs => absurd rfl hs, habsent, fun m hm => ?_,
        fun hm => ⟨hlisted (.inl rfl), rfl, hsock hm⟩⟩ }
    · by_cases hn : n = u.count
      · subst hn
        simp only [createIoConnectionClient, Function.update_self, Option.some.injEq] at he
        exact ⟨Nat.lt_succ_self _, by rw [← he]; rfl⟩
      · obtain ⟨hlt, hmode⟩ := hi.entries n e (by simpa [createIoConnectionClient, hn] using he)
        exact ⟨Nat.lt_succ_of_lt hlt, hmode⟩
    · rcases hmem hc with rfl | hc
      · exact Nat.lt_succ_self _
      · exact Nat.lt_succ_of_lt (hi.clients c hc)
    · rcases hmem hn with hn | hn <;> rcases hmem hm with hm | hm
      · rw [(Prod.mk.inj hn).2, (Prod.mk.inj hm).2]
      · exact absurd (Prod.mk.inj hn).1 (hfresh _ hm)
      · exact absurd (Prod.mk.inj hm).1 (hfresh _ hn)
      · exact hi.keys id n m hn hm
    · have hnew : u.count ∉ u.clients.map Prod.snd := fun hn => by
        obtain ⟨c, hc, heq⟩ := List.mem_map.mp hn
        exact (heq ▸ hi.clients c hc).false
      simpa [createIoConnectionClient, hfilter] using ⟨by simpa using hnew, hi.numbers⟩
    · exact absurd hb (by simp [createIoConnectionClient, hstop, StopPhase.Behind])
    · obtain ⟨hold, e, he, hrest⟩ := hi.table fd n hn
      have hne : n ≠ u.count := (hi.entries n e he).1.ne
      exact ⟨hlisted (.inr hold), e, (Function.update_of_ne hne ..).trans he, hrest⟩
    · rcases hmem hm with hm | hm
      · exact (Prod.mk.inj hm).2
      · exact absurd rfl (hfresh _ hm)
  · cases h

theorem attach_inv {u v : Service} (hi : Inv u) (h : step u .attach = some v) : Inv v := by
  simp only [step] at h
  split at h
  · next n sock hphase =>
    obtain ⟨e, he, rfl⟩ := Option.map_eq_some_iff.mp h
    have hc := hi.coming hphase he
    obtain ⟨hlt, hmode⟩ := hi.entries n e he
    exact hi.setEntry (e := { e with attached := true }) (p := .accepting .attached n sock) hlt hmode
      hc.absent ⟨_, Function.update_self .., nofun, fun _ => rfl, hc.absent, hc.own, hc.free⟩
  · cases h

theorem startConn_inv {u v : Service} {alive : Bool} (hi : Inv u)
    (h : step u (.startConn alive) = some v) : Inv v := by
  simp only [step] at h
  split at h
  · next n sock hphase =>
    obtain ⟨e, he, hv⟩ := Option.map_eq_some_iff.mp h
    have hc := hi.coming hphase he
    have hset := hc.attached nofun
    split_ifs at hv
    · subst hv
      exact hi.setPhase (p := .accepting .failed n sock) ⟨e, he, nofun, fun _ => hset, hc.absent, hc.own, hc.free⟩
    · subst hv
      obtain ⟨hlt, hmode⟩ := hi.entries n e he
      obtain ⟨hsock, hkept⟩ := startAccepted_keeps e.conn
      refine hi.setEntry (p := .accepting .started n sock) hlt (hkept.trans hmode) hc.absent
        ⟨_, Function.update_self .., nofun, fun _ => hset, hc.absent, hc.own, fun hm => ?_⟩
      obtain ⟨hlisted, heq, hfree⟩ := hc.free hm
      exact ⟨hlisted, hsock.trans heq, hfree⟩
  · cases h

/-- The connection comes into the table only where the mutex is free, so stop has not been at
its client. -/
theorem add_inv {u v : Service} {refused : Bool} (hi : Inv u)
    (h : step u (.add refused) = some v) : Inv v := by
  simp only [step] at h
  split at h
  · next n sock hphase =>
    obtain ⟨e, he, hmap⟩ := Option.bind_eq_some_iff.mp h
    obtain ⟨⟨io, k, res⟩, hadd, rfl⟩ := Option.map_eq_some_iff.mp hmap
    have hc := hi.coming hphase he
    by_cases hfd : e.conn.socketFd < 0
    · obtain ⟨rfl, rfl, -⟩ : u.io = io ∧ u.kernel = k ∧ -1 = res := by
        simpa [addIoMember, hfd] using hadd
      exact hi.setPhase trivial
    have hopen := addIoMember_isOpen hadd
    have hmutex := addIoMember_mutex (not_lt.mp hfd) hadd
    obtain ⟨hlisted, rfl, hfree⟩ := hc.free hmutex
    rcases addIoMember_cases (not_lt.mp hfd) hadd with ⟨old, -, rfl, rfl, -⟩ | ⟨-, rfl, -⟩
    · exact { hi with opened := fun hm => absurd hm (by simp), ioPhase := trivial }
    · refine { hi with
        table := fun fd m hm => ?_
        opened := fun hm hs fd m hfd => ?_
        ioPhase := trivial }
      · by_cases hne : fd = e.conn.socketFd
        · obtain rfl : n = m := by simpa [hne] using hm
          exact ⟨hlisted, e, he, hc.attached (by decide), hne.symm⟩
        · exact hi.table fd m (by simpa [hne] using hm)
      · rw [hopen]
        by_cases hne : fd = e.conn.socketFd
        · exact hne ▸ hfree.2 hs
        · exact hi.opened hm hs fd m (by simpa [hne] using hfd)
  · cases h

theorem fail_inv {u v : Service} (hi : Inv u) (h : step u .fail = some v) : Inv v := by
  simp only [step] at h
  split at h
  · next n sock hphase =>
    obtain ⟨-, hmap⟩ := Option.ite_none_right_eq_some.mp h
    obtain ⟨e, he, rfl⟩ := Option.map_eq_some_iff.mp hmap
    have hc := hi.coming hphase he
    refine { hi.erase hc.absent hc.own with opened := fun hm hs fd m hfd => ?_ }
    have hne : fd ≠ sock := by
      rintro rfl
      cases (hc.free hm).2.2.1.symm.trans hfd
    simpa [Kernel.close, hne] using hi.opened hm hs fd m hfd
  · cases h

/-- Where the entry found in the table is still in m_clients, it is there under its id. -/
theorem handle_inv {u v : Service} {close : Bool} (hi : Inv u)
    (h : step u (.handle close) = some v) : Inv v := by
  simp only [step] at h
  split at h
  · next n hphase =>
    obtain ⟨e, he, hv⟩ := Option.map_eq_some_iff.mp h
    have hr := hi.reacting hphase he
    split_ifs at hv with halive
    · subst hv
      exact hi.setPhase (p := .reacting .handling n) ⟨e, he, hr.attached,
        fun _ m hm => hi.keys _ m n hm (hasClient_iff.mp halive.2), nofun⟩
    · subst hv
      exact hi.setPhase trivial
  · cases h

theorem remove_inv {u v : Service} {refused : Bool} (hi : Inv u)
    (h : step u (.remove refused) = some v) : Inv v := by
  simp only [step] at h
  split at h
  · next n hphase =>
    obtain ⟨e, he, hrest⟩ := Option.bind_eq_some_iff.mp h
    have hr := hi.reacting hphase he
    rw [if_pos hr.attached] at hrest
    obtain ⟨w, hremove, rfl⟩ := Option.map_eq_some_iff.mp hrest
    have habsent := hi.absent he hremove
    obtain ⟨io, k, rfl, hmutex, hopen, htable, -⟩ := removeConnection_cases hremove
    exact { hi with
      table := fun fd m hm => hi.table fd m (htable fd _ hm).2
      opened := fun _ hs fd m hm =>
        (congrFun hopen fd).trans (hi.opened hmutex hs fd m (htable fd m hm).2)
      ioPhase := ⟨e, he, hr.attached, fun _ => hr.own nofun, fun _ => habsent⟩ }
  · cases h

theorem stopConn_inv {u v : Service} (hi : Inv u) (h : step u .stopConn = some v) : Inv v := by
  simp only [step] at h
  split at h
  · next n hphase =>
    obtain ⟨e, he, rfl⟩ := Option.map_eq_some_iff.mp h
    have hr := hi.reacting hphase he
    obtain ⟨hlt, hmode⟩ := hi.entries n e he
    have habsent := hr.absent (.inl rfl)
    rw [stopConnection_eq hmode]
    exact hi.setEntry (p := .reacting .stopped n) hlt (stop_server hmode).2 habsent
      ⟨_, Function.update_self .., hr.attached, fun _ => hr.own nofun, fun _ => habsent⟩
  · cases h

theorem erase_inv {u v : Service} (hi : Inv u) (h : step u .erase = some v) : Inv v := by
  simp only [step] at h
  split at h
  · next n hphase =>
    obtain ⟨-, hmap⟩ := Option.ite_none_right_eq_some.mp h
    obtain ⟨e, he, rfl⟩ := Option.map_eq_some_iff.mp hmap
    have hr := hi.reacting hphase he
    exact hi.erase (hr.absent (.inr rfl)) (hr.own nofun)
  · cases h

theorem event_inv {u v : Service} {fd : Int} (hi : Inv u) (h : step u (.event fd) = some v) :
    Inv v := by
  obtain ⟨-, hrest⟩ := Option.ite_none_right_eq_some.mp h
  split at hrest
  · rwa [← Option.some.inj hrest]
  · obtain rfl := Option.some.inj hrest
    exact hi.setPhase trivial
  · next n hfd =>
    obtain rfl := Option.some.inj hrest
    obtain ⟨-, e, he, hset, -⟩ := hi.table fd n hfd
    exact hi.setPhase (p := .reacting .found n) ⟨e, he, hset, fun hs => absurd rfl hs, nofun⟩

theorem stopEnter_inv {u v : Service} {order : List Nat} (hi : Inv u)
    (hg : Apart u (.stopEnter order)) (h : step u (.stopEnter order) = some v) : Inv v := by
  obtain ⟨⟨hstop, -, hperm⟩, rfl⟩ := enabled h
  have hlisted {n : Nat} (hn : Listed u n) : n ∈ order := by
    rw [Listed, hstop] at hn
    exact hperm.mem_iff.mpr hn
  exact { hi with
    todo := hperm.nodup_iff.mpr hi.numbers
    behind := nofun
    table := fun fd n hn => (hi.table fd n hn).imp_left hlisted
    ioPhase := hi.ioPhase.kept_entries (fun _ _ hm => hm) id (fun _ hc => hc)
      (fun hs => ⟨hs, rfl⟩) rfl (fun n sock hp => absurd hp (hg n sock))
      fun _ _ _ _ _ _ hl => hlisted hl }

/-- A client that has its connection, but not in the table yet, is the case that locks the
mutex for good. -/
theorem stopRemove_inv {u v : Service} {refused : Bool} (hi : Inv u)
    (h : step u (.stopRemove refused) = some v) : Inv v := by
  simp only [step] at h
  split at h
  · next n todo hstop =>
    obtain ⟨e, he, hrest⟩ := Option.bind_eq_some_iff.mp h
    have htodo : (n :: todo).Nodup := by simpa [StopPhase.todo, hstop] using hi.todo
    have hlisted {m : Nat} (hm : Listed u m) : m = n ∨ m ∈ todo := by
      simpa [Listed, hstop] using hm
    have hset : u.stopPhase ≠ .notCalled := by rw [hstop]; nofun
    split_ifs at hrest with hattached
    · obtain ⟨w, hremove, rfl⟩ := Option.map_eq_some_iff.mp hrest
      have habsent := hi.absent he hremove
      obtain ⟨io, k, rfl, hmutex, hopen, htable, hlock⟩ := removeConnection_cases hremove
      refine { hi with
        todo := htodo
        behind := nofun
        table := fun fd m hm => ?_
        opened := fun _ hs fd m hm =>
          (congrFun hopen fd).trans (hi.opened hmutex hs fd m (htable fd m hm).2)
        ioPhase := hi.ioPhase.kept_entries (fun fd m hm => (htable fd m hm).2) (fun _ => hmutex)
          (fun _ hc => hc) (fun hs => ⟨hs, hopen⟩) rfl (fun _ _ _ hs => absurd hs hset)
          fun m e' he' _ hm hnone hl => (hlisted hl).resolve_left ?_ }
      · obtain ⟨hl, hentry⟩ := hi.table fd m (htable fd _ hm).2
        exact ⟨(hlisted hl).resolve_left fun hmn => habsent fd (hmn ▸ hm), hentry⟩
      · rintro rfl
        obtain rfl := Option.some.inj (he.symm.trans he')
        rcases hlock with hlock | hsome
        · cases hm.symm.trans hlock
        · exact hsome hnone
    · obtain rfl := Option.some.inj hrest
      refine { hi with
        todo := htodo.of_cons
        behind := nofun
        table := fun fd m hm => ?_
        ioPhase := hi.ioPhase.kept_entries (fun _ _ hm => hm) id (fun _ hc => hc)
          (fun hs => ⟨hs, rfl⟩) rfl (fun _ _ _ hs => absurd hs hset)
          fun m e' he' hm _ _ hl => (hlisted hl).resolve_left ?_ }
      · obtain ⟨hl, e', he', hm', hfd⟩ := hi.table fd m hm
        refine ⟨(hlisted hl).resolve_left ?_, e', he', hm', hfd⟩
        rintro rfl
        obtain rfl := Option.some.inj (he.symm.trans he')
        exact hattached hm'
      · rintro rfl
        obtain rfl := Option.some.inj (he.symm.trans he')
        exact hattached (hm hset)
  · cases h

theorem stopStopConn_inv {u v : Service} (hi : Inv u) (h : step u .stopStopConn = some v) :
    Inv v := by
  simp only [step] at h
  split at h
  · next n todo hstop =>
    obtain ⟨e, he, rfl⟩ := Option.map_eq_some_iff.mp h
    obtain ⟨hlt, hmode⟩ := hi.entries n e he
    obtain ⟨hnot, htodo⟩ : n ∉ todo ∧ todo.Nodup := by
      simpa [StopPhase.todo, hstop] using hi.todo
    have hlisted {m : Nat} (hm : Listed u m) : m ∈ todo ∧ m ≠ n := by
      have hmem : m ∈ todo := by simpa [Listed, hstop] using hm
      exact ⟨hmem, fun hmn => hnot (hmn ▸ hmem)⟩
    have habsent : Absent u n := fun fd hfd => (hlisted (hi.table fd n hfd).1).2 rfl
    have hset : u.stopPhase ≠ .notCalled := by rw [hstop]; nofun
    rw [stopConnection_eq hmode]
    refine { hi.setEntry (p := .idle) hlt (stop_server hmode).2 habsent trivial with
      todo := htodo
      behind := nofun
      table := fun fd m hm => ?_
      ioPhase := hi.ioPhase.kept (fun _ _ hm => hm) id (fun _ hc => hc) (fun hs => ⟨hs, rfl⟩)
        (fun m e' he' => ?_) (fun _ _ _ hs => absurd hs hset) fun m e' e'' he' he'' _ _ _ hl => ?_ }
    · obtain ⟨hl, e', he', hrest⟩ := hi.table fd m hm
      obtain ⟨hmem, hne⟩ := hlisted hl
      exact ⟨hmem, e', by simpa [Service.setEntry, hne] using he', hrest⟩
    · by_cases hmn : m = n
      · subst hmn
        obtain rfl := Option.some.inj (he.symm.trans he')
        exact ⟨_, Function.update_self .., rfl, rfl⟩
      · exact ⟨e', by simpa [Service.setEntry, hmn] using he', rfl, rfl⟩
    · obtain ⟨hmem, hne⟩ := hlisted hl
      have hsame : u.entries m = some e'' := by simpa [Service.setEntry, hne] using he''
      exact ⟨hmem, by rw [Option.some.inj (he'.symm.trans hsame)]⟩
  · cases h

theorem stopClear_inv {u v : Service} (hi : Inv u) (h : step u .stopClear = some v) : Inv v := by
  obtain ⟨hstop, rfl⟩ := enabled h
  have hlisted {n : Nat} (hn : Listed u n) : False := by simp [Listed, hstop] at hn
  exact { hi with
    clients := nofun
    keys := nofun
    numbers := List.nodup_nil
    todo := List.nodup_nil
    behind := fun _ => rfl
    table := fun fd n hn => (hlisted (hi.table fd n hn).1).elim
    ioPhase := hi.ioPhase.kept_entries (fun _ _ hm => hm) id nofun (fun hs => ⟨hs, rfl⟩) rfl
      (fun _ _ _ hs => by rw [hstop] at hs; cases hs) fun _ _ _ _ _ _ hl => hlisted hl }

theorem stopServer_inv {u v : Service} {refused : Bool} (hi : Inv u)
    (h : step u (.stopServer refused) = some v) : Inv v := by
  obtain ⟨hstop, hmap⟩ := Option.ite_none_right_eq_some.mp h
  obtain ⟨out, hout, rfl⟩ := Option.map_eq_some_iff.mp hmap
  obtain ⟨htable, hmutex⟩ := stop_table hout
  have hdown := stop_down hout
  have hlisted {n : Nat} (hn : Listed u n) : False := by simp [Listed, hstop] at hn
  have hnil : u.clients = [] := hi.behind (by rw [hstop]; trivial)
  exact { hi with
    todo := List.nodup_nil
    behind := fun _ => hnil
    table := fun fd n hn => (hlisted (hi.table fd n (htable fd _ hn)).1).elim
    opened := fun _ hs => absurd hs hdown
    ioPhase := hi.ioPhase.kept_entries htable hmutex (fun _ hc => hc)
      (fun hs => absurd hs hdown) rfl (fun _ _ _ hs => by rw [hstop] at hs; cases hs)
      fun _ _ _ _ _ _ hl => hlisted hl }

theorem step_inv {u v : Service} {a : Act} (hi : Inv u) (hg : Apart u a)
    (h : step u a = some v) : Inv v := by
  cases a with
  | event fd => exact event_inv hi h
  | accept sock => exact accept_inv hi h
  | create => exact create_inv hi hg h
  | attach => exact attach_inv hi h
  | startConn alive => exact startConn_inv hi h
  | add refused => exact add_inv hi h
  | fail => exact fail_inv hi h
  | handle close => exact handle_inv hi h
  | remove refused => exact remove_inv hi h
  | stopConn => exact stopConn_inv hi h
  | erase => exact erase_inv hi h
  | stopEnter order => exact stopEnter_inv hi hg h
  | stopRemove refused => exact stopRemove_inv hi h
  | stopStopConn => exact stopStopConn_inv hi h
  | stopClear => exact stopClear_inv hi h
  | stopServer refused => exact stopServer_inv hi h

theorem Inv.empty {u : Service} (hi : Inv u) (hs : ∃ res, u.stopPhase = .returned res) :
    Empty u := by
  obtain ⟨res, hres⟩ := hs
  refine ⟨hi.behind (by rw [hres]; trivial), fun fd n hn => ?_⟩
  have hlisted := (hi.table fd n hn).1
  simp [Listed, hres] at hlisted

/-- In every run that keeps the creation of clients apart from stop, nothing of the clients
is left when stop has returned. -/
theorem stopped_empty {s u : Service} {ms : List (Move Service Act)} (hs : Started s)
    (h : Path step s ms u) (hg : ∀ m ∈ ms, Apart m.pre m.act) (hu : Stopped u) : Empty u :=
  (h.guarded hs.inv (fun _ _ _ hi hg hstep => step_inv hi hg hstep) hg).empty hu.1

/-- A service that listens on descriptor 3, and has no clients yet. -/
def listening : Service where
  server := { state := .started, port := 80, socketFd := 3, client := true, ioEntry := some 3 }
  io := {
    state := .started, wakeUpPipeFd := (5, 6), epollFd := 4, epollEvents := true
    ioMembers := Function.update (fun _ => none) 3 (some (.listener 3)) }
  kernel := {
    isOpen := fun fd => decide (3 ≤ fd ∧ fd ≤ 6)
    interest := fun fd => decide (fd = 3 ∨ fd = 5) }

theorem listening_started : Started listening where
  state := rfl
  server := rfl
  clients := rfl
  entries _ := rfl
  ioMembers fd m hm := by
    by_cases hfd : fd = 3
    · subst hfd
      obtain rfl : Member.listener 3 = m := by simpa [listening] using hm
      exact ⟨rfl, rfl⟩
    · simp [listening, hfd] at hm
  ioPhase := rfl
  stopPhase := rfl

theorem stopped_empty_one : ∃ ms u, Path step listening ms u ∧ Stopped u ∧ u.count = 1 ∧
    Empty u := by
  obtain ⟨u, hmeets, hstopped, hcount⟩ : ∃ u, Meets step Apart listening
      [.event 3, .accept 7, .create, .attach, .startConn true, .add false, .stopEnter [0],
        .stopRemove false, .stopStopConn, .stopClear, .stopServer false] u ∧
      Stopped u ∧ u.count = 1 :=
    ⟨_, ⟨trivial, _, rfl, trivial, _, rfl, ⟨rfl, List.forall_mem_nil _⟩, _, rfl, trivial, _, rfl,
      trivial, _, rfl, trivial, _, rfl, fun _ _ => nofun, _, rfl, trivial, _, rfl, trivial, _, rfl,
      trivial, _, rfl, trivial, _, rfl, rfl⟩, ⟨⟨0, rfl⟩, rfl⟩, rfl⟩
  obtain ⟨ms, hp, hms⟩ := hmeets.path
  exact ⟨ms, u, hp, hstopped, hcount, stopped_empty listening_started hp hms hstopped⟩

/-- A connection is accepted before stop and its client is created behind stop's section. -/
theorem client_left_behind :
    ¬∀ (s u : Service) (ms : List (Move Service Act)), Started s → Path step s ms u →
      Stopped u → Empty u := by
  intro h
  obtain ⟨u, hu, hstopped, hleft⟩ : ∃ u, run step listening
      [.event 3, .accept 7, .stopEnter [], .stopClear, .create, .attach, .startConn true,
        .add false, .stopServer false] = some u ∧ Stopped u ∧
      u.clients = [(1, 0)] := ⟨_, rfl, ⟨⟨0, rfl⟩, rfl⟩, rfl⟩
  obtain ⟨ms, hp, -⟩ := path_of_run hu
  cases hleft.symm.trans (h listening u ms listening_started hp hstopped).1

end DericRpc.StopService
