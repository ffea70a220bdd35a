import DericRpc.IoModule
import DericRpc.Connection

/-! TcpIoServer, its entry in IoModule's table, and the start and stop of the client entries
that RpcServiceImpl makes for accepted connections. -/
namespace DericRpc.IoServer
open ByteString Common Connection Io

/-- What the table holds: a TcpIoServerEntry, or a TcpIoConnection by its number. -/
inductive Member where
  | listener (socketFd : Int)
  | connection (id : Nat)
  deriving DecidableEq

structure TcpIoServerConfig where
  ip : Bytes
  port : Int
  maxConnectionNumber : Int
  serverClient : Bool

/-- `client` tells whether m_client is set; `ioEntry` is the fd of the entry. -/
structure TcpIoServer where
  state : ComponentState := .created
  ip : Bytes := []
  port : Int := -1
  maxConnectionNumber : Int := 0
  socketFd : Int := -1
  client : Bool := false
  ioEntry : Option Int := none

def TcpIoServer.init (s : TcpIoServer) (config : TcpIoServerConfig) : TcpIoServer × Int :=
  if s.state = .created then
    ({ s with
      ip := config.ip
      port := config.port
      maxConnectionNumber := config.maxConnectionNumber
      client := config.serverClient
      state := .initialized }, 0)
  else (s, -1)

/-- The kernel's answers to start: what socket returns, whether bind and listen succeed, and
whether epoll_ctl fails. -/
structure StartAnswers where
  sock : Int
  bound : Bool
  listening : Bool
  refused : Bool

structure ServerOut where
  server : TcpIoServer
  io : IoModule Member
  kernel : Kernel
  res : Int

/-- No result where IoModule's mutex is never given back. -/
def TcpIoServer.start (s : TcpIoServer) (io : IoModule Member) (k : Kernel) (a : StartAnswers) :
    Option ServerOut :=
  if s.state ≠ .initialized then some ⟨s, io, k, -1⟩
  else if a.sock < 0 then some ⟨{ s with socketFd := a.sock }, io, k, -1⟩
  else if a.bound = false then
    some ⟨{ s with socketFd := a.sock }, io, (k.openFd a.sock).close a.sock, -1⟩
  else if a.listening = false then
    some ⟨{ s with socketFd := a.sock }, io, (k.openFd a.sock).close a.sock, -1⟩
  else
    (addIoMember io (k.openFd a.sock) (some (.listener a.sock, a.sock)) a.refused).map
      fun (io', k', res) =>
        if res < 0 then
          ⟨{ s with socketFd := a.sock, ioEntry := none }, io', k'.close a.sock, res⟩
        else
          ⟨{ s with socketFd := a.sock, ioEntry := some a.sock, state := .started }, io', k', res⟩

def TcpIoServer.stop (s : TcpIoServer) (io : IoModule Member) (k : Kernel) (refused : Bool) :
    Option ServerOut :=
  if s.state ≠ .started then some ⟨s, io, k, -1⟩
  else
    let stopped := { s with ioEntry := none, socketFd := -1, state := ComponentState.initialized }
    match s.ioEntry with
    | none => some ⟨stopped, io, k.close s.socketFd, 0⟩
    | some fd => (removeIoMember io k (some fd) refused).map fun (io', k', _) =>
        ⟨stopped, io', k'.close s.socketFd, 0⟩

/-- The entry and the socket are kept where stop is not called. -/
def TcpIoServer.deInit (s : TcpIoServer) (io : IoModule Member) (k : Kernel) (refused : Bool) :
    Option ServerOut :=
  (if s.state = .started then s.stop io k refused else some ⟨s, io, k, 0⟩).map fun out =>
    { out with
      server := { out.server with
        ip := [], port := -1, maxConnectionNumber := 0, client := false, state := .created } }

/-- stop of a RpcServiceClientEntry; only the removal looks at the table. -/
def stopClientEntry (ioConnection : Option TcpIoConnection) (io : IoModule Member) (k : Kernel)
    (refused : Bool) : Option (Option TcpIoConnection × IoModule Member × Kernel) :=
  match ioConnection with
  | none => some (none, io, k)
  | some c => (removeIoMember io k (some c.socketFd) refused).map fun (io', k', _) =>
      (some (Connection.stop c).conn, io', (Connection.stop c).closed.foldl Kernel.close k')

/-- m_clients, by the ids and numbers of its entries, has this entry. -/
def hasClient (clients : List (UInt32 × Nat)) (clientId : UInt32) (n : Nat) : Bool :=
  decide ((clientId, n) ∈ clients)

@[simp] theorem hasClient_iff {clients : List (UInt32 × Nat)} {clientId : UInt32} {n : Nat} :
    hasClient clients clientId n = true ↔ (clientId, n) ∈ clients := decide_eq_true_iff

/-- All that a start which returns can do, by how far it gets. -/
inductive StartStep (s : TcpIoServer) (io : IoModule Member) (k : Kernel) (a : StartAnswers) :
    ServerOut → Prop
  | skipped : s.state ≠ .initialized → StartStep s io k a ⟨s, io, k, -1⟩
  | noSocket : s.state = .initialized → a.sock < 0 →
      StartStep s io k a ⟨{ s with socketFd := a.sock }, io, k, -1⟩
  | dropped : s.state = .initialized → 0 ≤ a.sock → ¬(a.bound = true ∧ a.listening = true) →
      StartStep s io k a
        ⟨{ s with socketFd := a.sock }, io, (k.openFd a.sock).close a.sock, -1⟩
  | unlisted (io' : IoModule Member) (k' : Kernel) (res : Int) : s.state = .initialized →
      0 ≤ a.sock → a.bound = true ∧ a.listening = true →
      addIoMember io (k.openFd a.sock) (some (.listener a.sock, a.sock)) a.refused =
        some (io', k', res) → res < 0 →
      StartStep s io k a
        ⟨{ s with socketFd := a.sock, ioEntry := none }, io', k'.close a.sock, res⟩
  | listed (io' : IoModule Member) (k' : Kernel) (res : Int) : s.state = .initialized →
      0 ≤ a.sock → a.bound = true ∧ a.listening = true →
      addIoMember io (k.openFd a.sock) (some (.listener a.sock, a.sock)) a.refused =
        some (io', k', res) → 0 ≤ res →
      StartStep s io k a
        ⟨{ s with socketFd := a.sock, ioEntry := some a.sock, state := .started }, io', k', res⟩

theorem start_step {s : TcpIoServer} {io : IoModule Member} {k : Kernel} {a : StartAnswers}
    {out : ServerOut} (h : s.start io k a = some out) : StartStep s io k a out := by
  unfold TcpIoServer.start at h
  split_ifs at h with hs hsock hbound hlisten
  · obtain rfl := Option.some.inj h
    exact .skipped hs
  · obtain rfl := Option.some.inj h
    exact .noSocket (not_not.mp hs) hsock
  · obtain rfl := Option.some.inj h
    exact .dropped (not_not.mp hs) (not_lt.mp hsock) (by simp [hbound])
  · obtain rfl := Option.some.inj h
    exact .dropped (not_not.mp hs) (not_lt.mp hsock) (by simp [hlisten])
  · obtain ⟨⟨io', k', res⟩, hadd, rfl⟩ := Option.map_eq_some_iff.mp h
    have hready : a.bound = true ∧ a.listening = true :=
      ⟨eq_true_of_ne_false hbound, eq_true_of_ne_false hlisten⟩
    by_cases hres : res < 0
    · simp only [if_pos hres]
      exact .unlisted io' k' res (not_not.mp hs) (not_lt.mp hsock) hready hadd hres
    · simp only [if_neg hres]
      exact .listed io' k' res (not_not.mp hs) (not_lt.mp hsock) hready hadd (not_lt.mp hres)

theorem start_state {s : TcpIoServer} {io : IoModule Member} {k : Kernel} {a : StartAnswers}
    {out : ServerOut} (h : s.start io k a = some out) :
    (out.res < 0 ∧ out.server.state = s.state) ∨ (0 ≤ out.res ∧ out.server.state = .started) := by
  cases start_step h with
  | skipped _ => exact .inl ⟨Int.negSucc_lt_zero 0, rfl⟩
  | noSocket _ _ => exact .inl ⟨Int.negSucc_lt_zero 0, rfl⟩
  | dropped _ _ _ => exact .inl ⟨Int.negSucc_lt_zero 0, rfl⟩
  | unlisted _ _ _ _ _ _ _ hres => exact .inl ⟨hres, rfl⟩
  | listed _ _ _ _ _ _ _ hres => exact .inr ⟨hres, rfl⟩

theorem addListener_table {io io' : IoModule Member} {k k' : Kernel} {fd res : Int}
    {refused : Bool} (hfd : 0 ≤ fd)
    (h : addIoMember io k (some (.listener fd, fd)) refused = some (io', k', res)) :
    (∀ fd m, io.ioMembers fd = some m → io'.ioMembers fd = some m) ∧
      (∀ fd n, io'.ioMembers fd = some (.connection n) →
        io.ioMembers fd = some (.connection n)) ∧
      (io'.ioMembersMutex = false → io'.ioMembers fd = some (.listener fd)) := by
  rcases addIoMember_cases hfd h with ⟨old, -, rfl, -, -⟩ | ⟨hnone, rfl, -⟩
  · exact ⟨fun _ _ h => h, fun _ _ h => h, fun h => absurd h (by simp)⟩
  · refine ⟨fun other m hm => ?_, fun other n hn => ?_, fun _ => Function.update_self ..⟩
    · have hne : other ≠ fd := fun he => by rw [he, hnone] at hm; cases hm
      simpa [hne] using hm
    · by_cases hne : other = fd
      · simp [hne] at hn
      · simpa [hne] using hn

/-- An initialized server's start changes the table at most under its new socket, and only
where it was empty; if it succeeds, the socket is open and the listener's. -/
theorem start_cases {s : TcpIoServer} {io : IoModule Member} {k : Kernel} {a : StartAnswers}
    {out : ServerOut} (h : s.start io k a = some out) :
    (s.state ≠ .initialized ∧ out = ⟨s, io, k, -1⟩) ∨ (s.state = .initialized ∧
      (∀ fd m, io.ioMembers fd = some m → out.io.ioMembers fd = some m) ∧
      (∀ fd n, out.io.ioMembers fd = some (.connection n) →
        io.ioMembers fd = some (.connection n)) ∧
      (out.io.ioMembersMutex = false → io.ioMembersMutex = false) ∧
      (∀ fd, (0 ≤ a.sock → fd ≠ a.sock) → k.isOpen fd = true → out.kernel.isOpen fd = true) ∧
      (out.server.state = .started → 0 ≤ a.sock ∧ out.server.socketFd = a.sock ∧
        out.server.ioEntry = some a.sock ∧ out.kernel.isOpen a.sock = true ∧
        (out.io.ioMembersMutex = false →
          out.io.ioMembers a.sock = some (.listener a.sock)))) := by
  have hopened {fd : Int} (hne : fd ≠ a.sock) (hfd : k.isOpen fd = true) :
      (k.openFd a.sock).isOpen fd = true := by simpa [Kernel.openFd, hne] using hfd
  have hclosed {k' : Kernel} {fd : Int} (hne : fd ≠ a.sock) (hfd : k'.isOpen fd = true) :
      (k'.close a.sock).isOpen fd = true := by simpa [Kernel.close, hne] using hfd
  cases start_step h with
  | skipped hs => exact .inl ⟨hs, rfl⟩
  | noSocket hs _ =>
    exact .inr ⟨hs, fun _ _ h => h, fun _ _ h => h, id, fun _ _ h => h,
      fun h => absurd (hs.symm.trans h) (by decide)⟩
  | dropped hs hsock _ =>
    exact .inr ⟨hs, fun _ _ h => h, fun _ _ h => h, id,
      fun fd hne h => hclosed (hne hsock) (hopened (hne hsock) h),
      fun h => absurd (hs.symm.trans h) (by decide)⟩
  | unlisted io' k' res hs hsock _ hadd _ =>
    obtain ⟨hgrows, hsame, -⟩ := addListener_table hsock hadd
    refine .inr ⟨hs, hgrows, hsame, fun _ => addIoMember_mutex hsock hadd, fun fd hne h => ?_,
      fun h => absurd (hs.symm.trans h) (by decide)⟩
    exact hclosed (hne hsock) ((congrFun (addIoMember_isOpen hadd) fd).trans (hopened (hne hsock) h))
  | listed io' k' res hs hsock _ hadd _ =>
    obtain ⟨hgrows, hsame, hlistener⟩ := addListener_table hsock hadd
    have hopen := addIoMember_isOpen hadd
    refine .inr ⟨hs, hgrows, hsame, fun _ => addIoMember_mutex hsock hadd,
      fun fd hne h => (congrFun hopen fd).trans (hopened (hne hsock) h), fun _ => ?_⟩
    exact ⟨hsock, rfl, rfl, (congrFun hopen _).trans (by simp [Kernel.openFd]), hlistener⟩

/-- All that a stop which returns can do. -/
inductive StopStep (s : TcpIoServer) (io : IoModule Member) (k : Kernel) (refused : Bool) :
    ServerOut → Prop
  | skipped : s.state ≠ .started → StopStep s io k refused ⟨s, io, k, -1⟩
  | noEntry : s.state = .started → s.ioEntry = none →
      StopStep s io k refused
        ⟨{ s with ioEntry := none, socketFd := -1, state := .initialized }, io,
          k.close s.socketFd, 0⟩
  | removed (fd : Int) (io' : IoModule Member) (k' : Kernel) (res : Int) : s.state = .started →
      s.ioEntry = some fd → removeIoMember io k (some fd) refused = some (io', k', res) →
      StopStep s io k refused
        ⟨{ s with ioEntry := none, socketFd := -1, state := .initialized }, io',
          k'.close s.socketFd, 0⟩

theorem stop_step {s : TcpIoServer} {io : IoModule Member} {k : Kernel} {refused : Bool}
    {out : ServerOut} (h : s.stop io k refused = some out) : StopStep s io k refused out := by
  unfold TcpIoServer.stop at h
  split_ifs at h with hs
  · obtain rfl := Option.some.inj h
    exact .skipped hs
  · cases he : s.ioEntry with
    | none =>
      rw [he] at h
      obtain rfl := Option.some.inj h
      exact .noEntry (not_not.mp hs) he
    | some fd =>
      rw [he] at h
      obtain ⟨⟨io', k', res⟩, hremove, rfl⟩ := Option.map_eq_some_iff.mp h
      exact .removed fd io' k' res (not_not.mp hs) he hremove

theorem stop_state {s : TcpIoServer} {io : IoModule Member} {k : Kernel} {refused : Bool}
    {out : ServerOut} (h : s.stop io k refused = some out) :
    out.server.state = if s.state = .started then .initialized else s.state := by
  cases stop_step h with
  | skipped hs => exact (if_neg hs).symm
  | noEntry hs _ => exact (if_pos hs).symm
  | removed _ _ _ _ hs _ _ => exact (if_pos hs).symm

theorem stop_down {s : TcpIoServer} {io : IoModule Member} {k : Kernel} {refused : Bool}
    {out : ServerOut} (h : s.stop io k refused = some out) : out.server.state ≠ .started := by
  rw [stop_state h]
  split_ifs with hs
  · nofun
  · exact hs

theorem stop_table {s : TcpIoServer} {io : IoModule Member} {k : Kernel} {refused : Bool}
    {out : ServerOut} (h : s.stop io k refused = some out) :
    (∀ fd m, out.io.ioMembers fd = some m → io.ioMembers fd = some m) ∧
      (out.io.ioMembersMutex = false → io.ioMembersMutex = false) := by
  cases stop_step h with
  | skipped _ => exact ⟨fun _ _ hm => hm, id⟩
  | noEntry _ _ => exact ⟨fun _ _ hm => hm, id⟩
  | removed fd io' k' res _ _ hremove =>
    exact ⟨fun _ _ hm => (removeIoMember_table hremove hm).2,
      fun _ => (removeIoMember_cases hremove).1⟩

end DericRpc.IoServer
