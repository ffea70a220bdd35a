import DericRpc.Sending
import DericRpc.Service

/-! A message length on its way through size_t, int, uint32_t and ssize_t: out of
RpcClientImpl and RpcServiceClientEntry, and back in through onReadAvailable. -/
namespace DericRpc.Lengths
open ByteString Common Serial Connection Framing Service

/-- `ioConnection` is none where the pointer is null. -/
structure RpcClientImpl where
  ioConnection : Option TcpIoConnection

def RpcClientImpl.sendMsg (r : RpcClientImpl) (msg : Bytes) (send : Bytes → Option Nat) :
    Option (RpcClientImpl × Bytes × Int) :=
  match r.ioConnection with
  | none => some (r, [], -1)
  | some c => (sendData c msg (toInt msg.length) send).map fun out =>
      ({ r with ioConnection := some out.conn }, out.written, out.res)

/-- No overflow of int on the way, and the result is negative or the frame of the whole
message is written. -/
def SendsWhole {S : Type*} (m : Bytes) (result : Option (S × Bytes × Int)) : Prop :=
  ∃ s written res, result = some (s, written, res) ∧ (res < 0 ∨ written = frame m)

/-- The length handed over is positive, is what the payload read took off the stream, and is
the size of the receive buffer for msgpack. -/
def HandsLength (s : Incoming) (out : ReadOut) : Prop :=
  ∀ pData len, out.call = some (.handleData pData len) → 0 < len ∧
    tcpHeaderSize + len + out.stream.bytes.length = s.bytes.length ∧
    unpackLength len = pData.length

/-- The connection is not started, or the length is no positive int; or the frame length is an
int, and send fails, or takes all of a message that fits. -/
def Sendable (c : TcpIoConnection) (m : Bytes) (send : Bytes → Option Nat) : Prop :=
  ¬Started c ∨ toInt m.length ≤ 0 ∨ tcpHeaderSize + toInt m.length ≤ intMax ∧
    (send (frame (m.take (toInt m.length).toNat)) = none ∨
      m.length ≤ maxMessage ∧ send (frame m) = some (frame m).length)

/-- Where a payload arrives, the header announces less than 2^31 bytes, they all come, and one
recv takes them all. -/
def Announced (c : TcpIoConnection) (s : Incoming) (e : RecvErrors) : Prop :=
  c.Live → Delivers s.bytes e → lengthField s.bytes < 2 ^ 31 ∧
    tcpHeaderSize + lengthField s.bytes ≤ s.bytes.length ∧
    e.takes (lengthField s.bytes) = lengthField s.bytes

variable {c : TcpIoConnection} {m : Bytes} {send : Bytes → Option Nat}

theorem sendData_notStarted (h : ¬Started c) (len : Int) :
    sendData c m len send = some ⟨c, [], -1⟩ := by
  have hguard : c.state ≠ .started ∨ c.socketFd < 0 := by
    by_contra hno
    push Not at hno
    exact h hno
  rw [sendData, if_pos hguard]

theorem take_toInt (h : m.length ≤ toInt m.length) : m.take (toInt m.length).toNat = m :=
  List.take_of_length_le (by omega)

/-- What goes out for a message whose length converts to a positive int: its first bytes, and
the whole of it only when it fits and send takes it all. -/
theorem sendData_cut (hsend : ∀ buffer n, send buffer = some n → n ≤ buffer.length)
    (hc : Started c) (hpos : 0 < toInt m.length) (hfit : tcpHeaderSize + toInt m.length ≤ intMax) :
    (∃ out, sendData c m (toInt m.length) send = some out ∧ (out.res < 0 ∨ out.written = frame m)) ↔
      send (frame (m.take (toInt m.length).toNat)) = none ∨
        m.length ≤ maxMessage ∧ send (frame m) = some (frame m).length := by
  have hcall := sendData_message c send hc hpos hfit (toInt_le m.length)
  have hlength : (frame (m.take (toInt m.length).toNat)).length =
      tcpHeaderSize + (toInt m.length).toNat := by
    have hle := toInt_le m.length
    rw [frame_length, List.length_take_of_le (by omega)]
  cases hs : send (frame (m.take (toInt m.length).toNat)) with
  | none =>
    rw [hs] at hcall
    exact iff_of_true ⟨_, hcall, .inl (show (-1 : Int) < 0 by decide)⟩ (.inl rfl)
  | some n =>
    have hle := hsend _ _ hs
    have hto : toInt n = n := toInt_of_fits (by simp only [intMax] at hfit; omega)
    simp only [hs, hto] at hcall
    rw [hcall]
    constructor
    · rintro ⟨out, hout, hres⟩
      obtain rfl := Option.some.inj hout
      have hwritten : (frame (m.take (toInt m.length).toNat)).take n = frame m :=
        hres.resolve_left fun hneg => absurd (show (n : Int) < 0 from hneg) (by omega)
      have hall := congrArg List.length hwritten
      rw [List.length_take, frame_length m] at hall
      have hshort : m.length ≤ toInt m.length := by omega
      have hmax : m.length ≤ maxMessage := by
        simp only [intMax] at hfit
        simp only [maxMessage]
        omega
      rw [take_toInt hshort] at hs
      have hn : n = (frame m).length := by
        rw [frame_length]
        omega
      exact .inr ⟨hmax, by rw [hs, hn]⟩
    · rintro (hnone | ⟨hmax, hall⟩)
      · cases hnone
      · have hmessage : m.take (toInt m.length).toNat = m := take_toInt (by
          rw [toInt_of_fits (by simp only [maxMessage] at hmax; omega)])
        rw [hmessage, hall] at hs
        obtain rfl := Option.some.inj hs
        exact ⟨_, rfl, .inr (by rw [hmessage]; exact List.take_length)⟩

theorem sendData_whole_iff (hsend : ∀ buffer n, send buffer = some n → n ≤ buffer.length) :
    (∃ out, sendData c m (toInt m.length) send = some out ∧
      (out.res < 0 ∨ out.written = frame m)) ↔ Sendable c m send := by
  by_cases hc : Started c
  · by_cases hpos : 0 < toInt m.length
    · by_cases hfit : tcpHeaderSize + toInt m.length ≤ intMax
      · rw [sendData_cut hsend hc hpos hfit]
        simp [Sendable, hc, not_le.mpr hpos, hfit]
      · have hnone : sendData c m (toInt m.length) send = none := by
          simp [sendData, hc.1, not_lt.mpr hc.2, not_le.mpr hpos, not_le.mp hfit]
        simp [Sendable, hc, not_le.mpr hpos, hfit, hnone]
    · have hrefused : sendData c m (toInt m.length) send = some ⟨c, [], -1⟩ := by
        unfold sendData
        split_ifs <;> first | rfl | omega
      exact iff_of_true ⟨_, hrefused, .inl (show (-1 : Int) < 0 by decide)⟩
        (.inr (.inl (not_lt.mp hpos)))
  · exact iff_of_true ⟨_, sendData_notStarted hc _, .inl (show (-1 : Int) < 0 by decide)⟩ (.inl hc)

theorem sendMsg_iff (r : RpcClientImpl) (m : Bytes)
    (hsend : ∀ buffer n, send buffer = some n → n ≤ buffer.length) :
    SendsWhole m (r.sendMsg m send) ↔ ∀ c, r.ioConnection = some c → Sendable c m send := by
  cases hconn : r.ioConnection with
  | none =>
    exact iff_of_true ⟨r, [], -1, by rw [RpcClientImpl.sendMsg, hconn], .inl (by decide)⟩ nofun
  | some c =>
    simp only [Option.some.injEq, forall_eq', ← sendData_whole_iff hsend]
    simp [SendsWhole, RpcClientImpl.sendMsg, hconn]

theorem entry_sendData_iff {P : MsgPack} {W : Type} (e : RpcServiceClientEntry P W) (m : Bytes)
    (hsend : ∀ buffer n, send buffer = some n → n ≤ buffer.length) :
    SendsWhole m (e.sendData m send) ↔ ∀ c, e.ioConnection = some c → Sendable c m send := by
  cases hconn : e.ioConnection with
  | none =>
    exact iff_of_true ⟨e, [], -1, by rw [RpcServiceClientEntry.sendData, hconn], .inl (by decide)⟩
      nofun
  | some c =>
    simp only [Option.some.injEq, forall_eq', ← sendData_whole_iff hsend]
    simp [SendsWhole, RpcServiceClientEntry.sendData, hconn]

/-- A payload that arrives is handed over with its length exactly when the header announced
it, the length is an int and one recv takes it all. -/
theorem payload_handed {s : Incoming} {e : RecvErrors} {out : ReadOut}
    (hne : payload e s.bytes ≠ [])
    (hstream : out.stream = ⟨s.bytes.drop (tcpHeaderSize + e.takes (lengthField s.bytes)), s.eof⟩)
    (hcall : out.call = some (.handleData (overwrite (resize (s.bytes.take tcpHeaderSize)
      (lengthField s.bytes)) 0 (payload e s.bytes)) (toInt (payload e s.bytes).length))) :
    HandsLength s out ↔ lengthField s.bytes < 2 ^ 31 ∧
      tcpHeaderSize + lengthField s.bytes ≤ s.bytes.length ∧
      e.takes (lengthField s.bytes) = lengthField s.bytes := by
  have hnil := (payload_eq_nil e s.bytes).not.mp hne
  have hlt := lengthField_lt s.bytes
  have htakes := takes_le e (lengthField s.bytes)
  have hlen := payload_length e s.bytes
  have hbuf : (overwrite (resize (s.bytes.take tcpHeaderSize) (lengthField s.bytes)) 0
      (payload e s.bytes)).length = lengthField s.bytes := by
    rw [overwrite_length, resize_length]
    omega
  have hhands : HandsLength s out ↔ 0 < toInt (payload e s.bytes).length ∧
      tcpHeaderSize + toInt (payload e s.bytes).length + out.stream.bytes.length = s.bytes.length ∧
      unpackLength (toInt (payload e s.bytes).length) = lengthField s.bytes := by
    simp only [HandsLength, hcall, Option.some.injEq, ClientCall.handleData.injEq]
    constructor
    · intro h
      simpa only [hbuf] using h _ _ ⟨rfl, rfl⟩
    · rintro h _ _ ⟨rfl, rfl⟩
      rwa [hbuf]
  rw [hhands, hstream, List.length_drop]
  by_cases hbig : (payload e s.bytes).length < 2 ^ 31
  · rw [toInt_of_fits hbig, unpackLength_of_fits hbig]
    omega
  · have hneg := toInt_neg (not_lt.mp hbig) (by omega)
    omega

theorem handsLength_iff {s : Incoming} {e : RecvErrors} {out : ReadOut}
    (h : onReadAvailable c s e = some out) : HandsLength s out ↔ Announced c s e := by
  by_cases hc : c.Live
  · have hquiet (hcall : ∀ pData len, out.call ≠ some (.handleData pData len)) :
        HandsLength s out := fun pData len hsome => absurd hsome (hcall pData len)
    obtain ⟨-, hcases⟩ := onReadAvailable_cases hc h
    rcases hcases with ⟨he, hcall, -⟩ | ⟨-, hs, hcall, -⟩ | ⟨-, hp, -, hcall, -⟩ |
      ⟨he, hp, -, -, hstream, hcall⟩
    · refine iff_of_true (hquiet (by simp [hcall])) fun _ hd => ?_
      exact absurd (he.symm.trans hd.1) (by decide)
    · subst hs
      exact iff_of_true (hquiet (by simp [hcall])) fun _ hd => absurd List.take_nil hd.2.2
    · refine iff_of_true (hquiet (by simp [hcall])) fun _ hd => ?_
      exact absurd (hp.symm.trans hd.2.1) (by decide)
    · by_cases hnil : payload e s.bytes = []
      · exact iff_of_true (hquiet (by simp [hcall, hnil])) fun _ hd => absurd hnil hd.2.2
      · rw [if_neg hnil] at hcall
        rw [payload_handed hnil hstream hcall]
        exact ⟨fun hall _ _ => hall, fun hall => hall hc ⟨he, hp, hnil⟩⟩
  · have hdead := onReadAvailable_dead hc s e
    obtain rfl := Option.some.inj (hdead.symm.trans h)
    exact iff_of_true (fun _ _ hsome => nomatch hsome) fun hlive => absurd hlive hc

/-- A message length survives both ways of sending exactly when each connection can send it
whole or refuses it, and a payload length survives a read exactly when the payload is all
there, its length is an int and one recv takes it all. -/
theorem lengths_survive_iff {P : MsgPack} {W : Type} (r : RpcClientImpl)
    (e : RpcServiceClientEntry P W) (m : Bytes) (send : Bytes → Option Nat)
    (hsend : ∀ buffer n, send buffer = some n → n ≤ buffer.length) (c : TcpIoConnection)
    (s : Incoming) (errors : RecvErrors) :
    (SendsWhole m (r.sendMsg m send) ↔ ∀ c, r.ioConnection = some c → Sendable c m send) ∧
    (SendsWhole m (e.sendData m send) ↔ ∀ c, e.ioConnection = some c → Sendable c m send) ∧
    ∀ out, onReadAvailable c s errors = some out → (HandsLength s out ↔ Announced c s errors) :=
  ⟨sendMsg_iff r m hsend, entry_sendData_iff e m hsend, fun _ h => handsLength_iff h⟩

theorem sendsAll_le (buffer : Bytes) (n : Nat) (h : sendsAll buffer = some n) :
    n ≤ buffer.length := (Option.some.inj h).ge

theorem lengths_survive_iff_hi :
    (SendsWhole [104, 105] (RpcClientImpl.sendMsg ⟨some (connectedTo 4)⟩ [104, 105] sendsAll) ↔
      ∀ c, some (connectedTo 4) = some c → Sendable c [104, 105] sendsAll) ∧
    (SendsWhole [104, 105] ((⟨none, some (connectedTo 5)⟩ :
        RpcServiceClientEntry standard Unit).sendData [104, 105] sendsAll) ↔
      ∀ c, some (connectedTo 5) = some c → Sendable c [104, 105] sendsAll) ∧
    ∀ out, onReadAvailable (connectedTo 4) ⟨[1, 0, 0, 0, 1, 33], false⟩ {} = some out →
      (HandsLength ⟨[1, 0, 0, 0, 1, 33], false⟩ out ↔
        Announced (connectedTo 4) ⟨[1, 0, 0, 0, 1, 33], false⟩ {}) :=
  lengths_survive_iff ⟨some (connectedTo 4)⟩ ⟨none, some (connectedTo 5)⟩ [104, 105] sendsAll
    sendsAll_le (connectedTo 4) ⟨[1, 0, 0, 0, 1, 33], false⟩ {}

def zeros (n : Nat) : Bytes := List.replicate n 0

/-- A length of 2^31 - 5 overflows the frame length, one of 2^32 + 1 sends one byte, and of an
announced payload of 0x7ffff001 bytes a capped recv takes one less. -/
theorem lengths_lost :
    ¬SendsWhole (zeros (2 ^ 31 - 5))
      (RpcClientImpl.sendMsg ⟨some (connectedTo 4)⟩ (zeros (2 ^ 31 - 5)) sendsAll) ∧
    ¬SendsWhole (zeros (2 ^ 32 + 1))
      (RpcClientImpl.sendMsg ⟨some (connectedTo 4)⟩ (zeros (2 ^ 32 + 1)) sendsAll) ∧
    ∃ out, onReadAvailable (connectedTo 4)
        ⟨[1, 0x7f, 0xff, 0xf0, 1] ++ zeros 0x7ffff001, true⟩ { capped := true } = some out ∧
      ¬HandsLength ⟨[1, 0x7f, 0xff, 0xf0, 1] ++ zeros 0x7ffff001, true⟩ out := by
  have hlength (n : Nat) : (zeros n).length = n := List.length_replicate
  have hstarted : Started (connectedTo 4) := ⟨rfl, by decide⟩
  refine ⟨fun h => ?_, fun h => ?_, ?_⟩
  · rcases (sendMsg_iff _ _ sendsAll_le).mp h _ rfl with hc | hneg | ⟨hfit, -⟩
    · exact hc hstarted
    · rw [hlength] at hneg
      exact absurd hneg (by decide)
    · rw [hlength] at hfit
      exact absurd hfit (by decide)
  · rcases (sendMsg_iff _ _ sendsAll_le).mp h _ rfl with hc | hneg | ⟨-, hnone | ⟨hmax, -⟩⟩
    · exact hc hstarted
    · rw [hlength] at hneg
      exact absurd hneg (by decide)
    · cases hnone
    · rw [hlength] at hmax
      exact absurd hmax (by decide)
  · obtain ⟨out, hout⟩ := Option.isSome_iff_exists.mp (onReadAvailable_closed (connectedTo 4)
      ([1, 0x7f, 0xff, 0xf0, 1] ++ zeros 0x7ffff001) { capped := true })
    have hfield : lengthField ([1, 0x7f, 0xff, 0xf0, 1] ++ zeros 0x7ffff001) = 0x7ffff001 := by
      simp only [lengthField, tcpHeaderOffsetMessageLen, List.cons_append, List.drop_succ_cons,
        List.drop_zero, List.take_succ_cons, List.take_zero]
      decide
    have hdelivers : Delivers ([1, 0x7f, 0xff, 0xf0, 1] ++ zeros 0x7ffff001)
        { capped := true } := by
      refine ⟨rfl, rfl, (payload_eq_nil _ _).not.mpr ?_⟩
      rw [hfield, List.length_append, hlength]
      decide
    refine ⟨out, hout, fun h => ?_⟩
    have htakes := ((handsLength_iff hout).mp h ⟨rfl, by decide, rfl⟩ hdelivers).2.2
    rw [hfield] at htakes
    exact absurd htakes (by decide)

end DericRpc.Lengths
