import DericRpc.Common
import Mathlib.Tactic.SplitIfs

/-! TcpIoConnection: framed messages over one TCP socket. The kernel's side of send and
recv is an argument: how much send transmits, and the bytes that the peer sent. -/
namespace DericRpc.Connection
open ByteString Common

def tcpHeaderMagic : UInt8 := 0x01
def tcpHeaderOffsetMessageLen : Nat := 1
def tcpHeaderSize : Nat := 5

structure TcpHeader where
  magic : UInt8
  messageLen : UInt32

/-- Neither the length check nor the magic byte of the data has an effect: a short header
is only logged, and the magic is set, not read. -/
def TcpHeader.deserialerFrom (data : Bytes) : TcpHeader where
  magic := tcpHeaderMagic
  messageLen := getUint32FromChars (data.drop tcpHeaderOffsetMessageLen)

def TcpHeader.serialerTo (h : TcpHeader) (buffer : Bytes) : Bytes :=
  overwrite (overwrite buffer 0 [tcpHeaderMagic]) tcpHeaderOffsetMessageLen
    (setUint32ToChars h.messageLen)

inductive TcpIoConnectionMode where
  | server | client
  deriving DecidableEq

/-- `ioClient` tells whether m_ioClient.lock() still finds the client object. -/
structure TcpIoConnection where
  state : ComponentState := .created
  sendBuffer : Bytes := []
  receiveBuffer : Bytes := []
  socketFd : Int := -1
  ioMode : TcpIoConnectionMode := .server
  ioClient : Bool := false

/-- The conditions that onReadAvailable checks before it reads. -/
def TcpIoConnection.Live (c : TcpIoConnection) : Prop :=
  c.state = .started ∧ 0 ≤ c.socketFd ∧ c.ioClient = true

/-- What a connection asks of its client: handleEvent with TCP_IO_CONNECTION_EVENT_CLOSE,
the only event, or handleData with a pointer and an int length. -/
inductive ClientCall where
  | handleEvent
  | handleData (pData : Bytes) (len : Int)
  deriving DecidableEq

inductive IoMemberErrorAction where
  | null | delete
  deriving DecidableEq

/-- The receiving end of a socket: bytes that arrived and were not read, and whether the
peer has closed behind them. -/
structure Incoming where
  bytes : Bytes
  eof : Bool
  deriving DecidableEq

/-- The most bytes that one call takes on Linux (MAX_RW_COUNT). -/
def maxRwCount : Nat := 0x7ffff000

/-- The kernel's side of onReadAvailable: which of the two recv calls fail, and whether a call is
capped at maxRwCount. -/
structure RecvErrors where
  header : Bool := false
  payload : Bool := false
  capped : Bool := false
  deriving DecidableEq

/-- How many bytes a call that asks for `n` takes. -/
def RecvErrors.takes (e : RecvErrors) (n : Nat) : Nat :=
  if e.capped = true then min n maxRwCount else n

/-- recv with MSG_WAITALL, which takes `n` bytes: -1 (`some none`), or all of them, or what is
left of a closed stream; `none` while it blocks. For no bytes, too, it blocks until one is there. -/
def recv (s : Incoming) (n : Nat) (fails : Bool) : Option (Option Bytes × Incoming) :=
  if fails then some (none, s)
  else if max n 1 ≤ s.bytes.length ∨ s.eof = true then
    some (some (s.bytes.take n), ⟨s.bytes.drop n, s.eof⟩)
  else none

theorem takes_uncapped (n : Nat) : ({} : RecvErrors).takes n = n := rfl

theorem takes_le (e : RecvErrors) (n : Nat) : e.takes n ≤ n := by
  unfold RecvErrors.takes
  split_ifs <;> omega

theorem takes_eq_zero {e : RecvErrors} {n : Nat} : e.takes n = 0 ↔ n = 0 := by
  unfold RecvErrors.takes maxRwCount
  split_ifs <;> omega

structure ReadOut where
  conn : TcpIoConnection
  stream : Incoming
  call : Option ClientCall
  res : Int

def onReadAvailable (c : TcpIoConnection) (s : Incoming) (e : RecvErrors) : Option ReadOut :=
  if c.state ≠ .started then some ⟨c, s, none, -1⟩
  else if c.socketFd < 0 then some ⟨c, s, none, -1⟩
  else if c.ioClient = false then some ⟨c, s, none, -1⟩
  else
    let buffer := resize c.receiveBuffer tcpHeaderSize
    let cleared := { c with receiveBuffer := [] }
    match recv s tcpHeaderSize e.header with
    | none => none
    | some (none, s) => some ⟨cleared, s, none, -1⟩
    | some (some data, s) =>
      if data.length = 0 then some ⟨cleared, s, some .handleEvent, 0⟩
      else
        let tcpHeader := TcpHeader.deserialerFrom (overwrite buffer 0 data)
        let buffer := resize (overwrite buffer 0 data) tcpHeader.messageLen.toNat
        match recv s (e.takes tcpHeader.messageLen.toNat) e.payload with
        | none => none
        | some (none, s) => some ⟨cleared, s, none, -1⟩
        | some (some data, s) =>
          if data.length = 0 then some ⟨cleared, s, some .handleEvent, 0⟩
          else
            some ⟨cleared, s, some (.handleData (overwrite buffer 0 data) (toInt data.length)),
              toInt data.length⟩

structure SendOut where
  conn : TcpIoConnection
  written : Bytes
  res : Int

/-- `send` is the kernel's answer: -1 (`none`) or the number of leading bytes transmitted.
No result when TCP_HEADER_SIZE + len overflows int. -/
def sendData (c : TcpIoConnection) (data : Bytes) (len : Int) (send : Bytes → Option Nat) :
    Option SendOut :=
  if c.state ≠ .started ∨ c.socketFd < 0 then some ⟨c, [], -1⟩
  else if len ≤ 0 then some ⟨c, [], -1⟩
  else if intMax < tcpHeaderSize + len then none
  else
    let buffer := resize c.sendBuffer (tcpHeaderSize + len.toNat)
    -- the magic of the header on the stack is never set and never read
    let buffer := TcpHeader.serialerTo ⟨0, UInt32.ofNat len.toNat⟩ buffer
    let buffer := overwrite buffer tcpHeaderSize (data.take len.toNat)
    let c := { c with sendBuffer := buffer }
    match send buffer with
    | none => some ⟨c, [], -1⟩
    | some n => some ⟨c, buffer.take n, toInt n⟩

/-- IO_MEMBER_ERROR_EPOLL_FAILED is the only error; the state is not checked. -/
def onIoError (c : TcpIoConnection) : Option ClientCall × IoMemberErrorAction :=
  (if c.ioClient then some .handleEvent else none, .null)

def setIoFd (c : TcpIoConnection) (socketFd : Int) : TcpIoConnection :=
  { c with socketFd := socketFd }

/-- start() of an accepted connection. -/
def startAccepted (c : TcpIoConnection) : TcpIoConnection × Int :=
  if c.state ≠ .created then (c, -1)
  else if c.ioClient = false then (c, -1)
  else if c.socketFd < 0 then (c, -1)
  else ({ c with state := .started }, 0)

/-- The result of an operation that may close descriptors. -/
structure FdOut where
  conn : TcpIoConnection
  closed : List Int
  res : Int

/-- start(Ip, port): `sock` is what socket returns, `connected` whether connect succeeds. -/
def startConnect (c : TcpIoConnection) (port sock : Int) (connected : Bool) : FdOut :=
  if c.state ≠ .created then ⟨c, [], -1⟩
  else if c.ioClient = false then ⟨c, [], -1⟩
  else if port < 0 then ⟨c, [], -1⟩
  else if sock < 0 then ⟨{ c with socketFd := sock }, [], -1⟩
  else if connected = false then ⟨{ c with socketFd := -1 }, [sock], -1⟩
  else ⟨{ c with socketFd := sock, ioMode := .client, state := .started }, [], 0⟩

/-- An accepted socket is not closed here, and descriptor 0 is taken for none. -/
def stop (c : TcpIoConnection) : FdOut :=
  if c.state ≠ .started then ⟨c, [], -1⟩
  else if c.socketFd = 0 then ⟨{ c with state := .created }, [], 0⟩
  else
    ⟨{ c with socketFd := -1, state := .created },
      if c.ioMode = .client then [c.socketFd] else [], 0⟩

theorem stop_server {c : TcpIoConnection} (h : c.ioMode = .server) :
    (stop c).closed = [] ∧ (stop c).conn.ioMode = .server := by
  unfold stop
  split_ifs with hstate hfd hmode
  · exact ⟨rfl, h⟩
  · exact ⟨rfl, h⟩
  · rw [h] at hmode
    cases hmode
  · exact ⟨rfl, h⟩

/-- Reading changes nothing of the connection but its receive buffer. -/
theorem onReadAvailable_conn {c : TcpIoConnection} {s : Incoming} {e : RecvErrors} {out : ReadOut}
    (h : onReadAvailable c s e = some out) :
    ∃ buffer, out.conn = { c with receiveBuffer := buffer } := by
  unfold onReadAvailable at h
  split_ifs at h
  · obtain rfl := Option.some.inj h
    exact ⟨c.receiveBuffer, rfl⟩
  · obtain rfl := Option.some.inj h
    exact ⟨c.receiveBuffer, rfl⟩
  · obtain rfl := Option.some.inj h
    exact ⟨c.receiveBuffer, rfl⟩
  · refine ⟨[], ?_⟩
    dsimp only at h
    split at h
    · cases h
    · obtain rfl := Option.some.inj h
      rfl
    · split_ifs at h
      · obtain rfl := Option.some.inj h
        rfl
      · split at h
        · cases h
        · obtain rfl := Option.some.inj h
          rfl
        · split_ifs at h
          · obtain rfl := Option.some.inj h
            rfl
          · obtain rfl := Option.some.inj h
            rfl

theorem onReadAvailable_dead {c : TcpIoConnection} (hc : ¬c.Live) (s : Incoming) (e : RecvErrors) :
    onReadAvailable c s e = some ⟨c, s, none, -1⟩ := by
  unfold onReadAvailable
  split_ifs with hstate hfd hclient
  · rfl
  · rfl
  · rfl
  · exact absurd ⟨not_ne_iff.mp hstate, not_lt.mp hfd, eq_true_of_ne_false hclient⟩ hc

/-- A connection that start(Ip, port) has connected over socket `sock`. -/
def connectedTo (sock : Int) : TcpIoConnection where
  state := .started
  socketFd := sock
  ioMode := .client
  ioClient := true

theorem startConnect_ok {port sock : Int} (hport : 0 ≤ port) (hsock : 0 ≤ sock) :
    startConnect { ioClient := true } port sock true = ⟨connectedTo sock, [], 0⟩ := by
  simp [startConnect, not_lt.mpr hport, not_lt.mpr hsock, connectedTo]

theorem startConnect_fails {port sock : Int} {connected : Bool}
    (h : ¬ (0 ≤ port ∧ 0 ≤ sock ∧ connected = true)) :
    (startConnect { ioClient := true } port sock connected).res = -1 := by
  unfold startConnect
  split_ifs <;> simp_all

/-! The frame that a message travels in. -/

def frame (m : Bytes) : Bytes := tcpHeaderMagic :: beBytes 4 m.length ++ m

/-- The message length that the header at the front of a stream announces. -/
def lengthField (s : Bytes) : Nat := beValue ((s.drop tcpHeaderOffsetMessageLen).take 4)

theorem serialerTo_eq (h : TcpHeader) (buffer : Bytes) (hb : tcpHeaderSize ≤ buffer.length) :
    h.serialerTo buffer =
      tcpHeaderMagic :: beBytes 4 h.messageLen.toNat ++ buffer.drop tcpHeaderSize := by
  obtain ⟨x, xs, rfl⟩ : ∃ x xs, buffer = x :: xs := by
    cases buffer with
    | nil => simp [tcpHeaderSize] at hb
    | cons x xs => exact ⟨x, xs, rfl⟩
  simp [TcpHeader.serialerTo, overwrite, setUint32ToChars_eq, tcpHeaderOffsetMessageLen,
    tcpHeaderSize]

theorem messageLen_toNat (s : Bytes) (h : tcpHeaderSize ≤ s.length) :
    (TcpHeader.deserialerFrom s).messageLen.toNat = lengthField s := by
  match s, h with
  | x :: a :: b :: c :: d :: rest, _ => exact getUint32FromChars_toNat a b c d rest

theorem lengthField_lt (s : Bytes) : lengthField s < 2 ^ 32 := by
  have h := beValue_lt ((s.drop tcpHeaderOffsetMessageLen).take 4)
  have hl : ((s.drop tcpHeaderOffsetMessageLen).take 4).length ≤ 4 := by simp
  calc lengthField s < 256 ^ ((s.drop tcpHeaderOffsetMessageLen).take 4).length := h
    _ ≤ 256 ^ 4 := Nat.pow_le_pow_right (by omega) hl
    _ = 2 ^ 32 := by norm_num

theorem lengthField_frame (m rest : Bytes) (h : m.length < 2 ^ 32) :
    lengthField (frame m ++ rest) = m.length := by
  have ht : ((frame m ++ rest).drop tcpHeaderOffsetMessageLen).take 4 = beBytes 4 m.length := by
    simp [frame, tcpHeaderOffsetMessageLen]
  rw [lengthField, ht, beValue_beBytes 4 _ h]

theorem frame_length (m : Bytes) : (frame m).length = tcpHeaderSize + m.length := by
  simp [frame, tcpHeaderSize]; omega

end DericRpc.Connection
