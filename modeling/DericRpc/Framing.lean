import DericRpc.Connection

/-! Message framing: what one sendData writes, what one onReadAvailable takes off the
stream, and both over message sequences of any length. -/
namespace DericRpc.Framing
open ByteString Common Connection

/-- The longest message whose frame length is an int. -/
def maxMessage : Nat := 2 ^ 31 - 1 - tcpHeaderSize

def Started (c : TcpIoConnection) : Prop := c.state = .started ∧ 0 ≤ c.socketFd

/-- The kernel transmits everything it is given. -/
def sendsAll (buffer : Bytes) : Option Nat := some buffer.length

/-- For a length that is not refused, send is given the frame of the message, whatever the
buffer held before. -/
theorem sendData_message (c : TcpIoConnection) {data : Bytes} {len : Int}
    (send : Bytes → Option Nat) (hc : Started c) (h1 : 0 < len) (h2 : tcpHeaderSize + len ≤ intMax)
    (hdata : len ≤ data.length) :
    sendData c data len send = some
      (match send (frame (data.take len.toNat)) with
      | none => ⟨{ c with sendBuffer := frame (data.take len.toNat) }, [], -1⟩
      | some n => ⟨{ c with sendBuffer := frame (data.take len.toNat) },
          (frame (data.take len.toNat)).take n, toInt n⟩) := by
  obtain ⟨hstate, hfd⟩ := hc
  have hmax : len ≤ 2 ^ 31 - 1 - 5 := by
    simp only [intMax, tcpHeaderSize] at h2
    omega
  have htake : (data.take len.toNat).length = len.toNat := List.length_take_of_le (by omega)
  have hbuf : overwrite (TcpHeader.serialerTo ⟨0, UInt32.ofNat len.toNat⟩
      (resize c.sendBuffer (tcpHeaderSize + len.toNat))) tcpHeaderSize (data.take len.toNat) =
        frame (data.take len.toNat) := by
    have hn : (UInt32.ofNat len.toNat).toNat = len.toNat :=
      UInt32.toNat_ofNat_of_lt' (by simp only [UInt32.size]; omega)
    have hall : 4 + len.toNat + 1 ≤ 5 + len.toNat := by omega
    rw [serialerTo_eq _ _ (by simp), hn, frame, htake]
    simp [overwrite, tcpHeaderSize, htake, hall]
  simp only [sendData, hstate, ne_eq, not_true_eq_false, false_or, if_neg (not_lt.mpr hfd),
    if_neg (not_le.mpr h1), if_neg (not_lt.mpr h2), hbuf]
  cases send (frame (data.take len.toNat)) <;> rfl

theorem sendData_frame (c : TcpIoConnection) (m : Bytes) (hc : Started c)
    (h1 : 1 ≤ m.length) (h2 : m.length ≤ maxMessage) :
    sendData c m m.length sendsAll =
      some ⟨{ c with sendBuffer := frame m }, frame m, tcpHeaderSize + m.length⟩ := by
  have hmax : m.length ≤ 2 ^ 31 - 1 - 5 := h2
  have hfit : tcpHeaderSize + (m.length : Int) ≤ intMax := by
    simp only [intMax, tcpHeaderSize]
    omega
  have hsent : toInt (frame m).length = tcpHeaderSize + m.length := by
    rw [frame_length, toInt_of_fits (by simp only [tcpHeaderSize]; omega)]
    push_cast; rfl
  rw [sendData_message c sendsAll hc (by omega) hfit le_rfl]
  simp only [Int.toNat_natCast, List.take_length, sendsAll, hsent]

theorem lengthField_take (s : Bytes) (h : tcpHeaderSize ≤ s.length) :
    lengthField (s.take tcpHeaderSize) = lengthField s := by
  match s, h with
  | x :: a :: b :: c :: d :: rest, _ => rfl

/-- Once a whole header is there, what the buffer held before is gone, and the payload
read asks for exactly the announced length. -/
theorem onReadAvailable_header {c : TcpIoConnection} {s : Incoming} {e : RecvErrors}
    (hc : c.Live) (hs : tcpHeaderSize ≤ s.bytes.length) (he : e.header = false) :
    onReadAvailable c s e =
      match recv ⟨s.bytes.drop tcpHeaderSize, s.eof⟩ (e.takes (lengthField s.bytes)) e.payload with
      | none => none
      | some (none, s') => some ⟨{ c with receiveBuffer := [] }, s', none, -1⟩
      | some (some data, s') =>
        if data.length = 0 then
          some ⟨{ c with receiveBuffer := [] }, s', some .handleEvent, 0⟩
        else
          some ⟨{ c with receiveBuffer := [] }, s',
            some (.handleData (overwrite (resize (s.bytes.take tcpHeaderSize)
              (lengthField s.bytes)) 0 data) (toInt data.length)), toInt data.length⟩ := by
  obtain ⟨hstate, hfd, hclient⟩ := hc
  have htake : (s.bytes.take tcpHeaderSize).length = tcpHeaderSize :=
    List.length_take_of_le hs
  have hrecv : recv s tcpHeaderSize e.header =
      some (some (s.bytes.take tcpHeaderSize), ⟨s.bytes.drop tcpHeaderSize, s.eof⟩) := by
    have hall : max tcpHeaderSize 1 ≤ s.bytes.length := hs
    simp [recv, he, hall]
  have hbuf : overwrite (resize c.receiveBuffer tcpHeaderSize) 0 (s.bytes.take tcpHeaderSize) =
      s.bytes.take tcpHeaderSize := overwrite_all _ _ (by rw [resize_length, htake])
  have hlen : (TcpHeader.deserialerFrom (s.bytes.take tcpHeaderSize)).messageLen.toNat =
      lengthField s.bytes := by
    rw [messageLen_toNat _ (by omega), lengthField_take _ hs]
  have hne : ¬ (s.bytes.take tcpHeaderSize).length = 0 := by rw [htake]; decide
  rcases hpayload : recv ⟨s.bytes.drop tcpHeaderSize, s.eof⟩ (e.takes (lengthField s.bytes))
    e.payload with _ | ⟨_ | data, s'⟩ <;>
  simp only [onReadAvailable, hstate, hclient, ne_eq, not_true_eq_false, if_false,
    if_neg (not_lt.mpr hfd), Bool.true_eq_false, hrecv, hbuf, hlen, if_neg hne, hpayload]

theorem onReadAvailable_message {c : TcpIoConnection} (hc : c.Live) (m rest : Bytes)
    (eof : Bool) (h1 : 1 ≤ m.length) (h2 : m.length < 2 ^ 32) :
    onReadAvailable c ⟨frame m ++ rest, eof⟩ {} =
      some ⟨{ c with receiveBuffer := [] }, ⟨rest, eof⟩, some (.handleData m (toInt m.length)),
        toInt m.length⟩ := by
  have hfield := lengthField_frame m rest h2
  have hdrop : (frame m ++ rest).drop tcpHeaderSize = m ++ rest := by
    simp [frame, tcpHeaderSize]
  have hrecv : recv ⟨m ++ rest, eof⟩ m.length false = some (some m, ⟨rest, eof⟩) := by
    have hall : max m.length 1 ≤ (m ++ rest).length := by
      rw [List.length_append]
      omega
    unfold recv
    rw [if_neg Bool.false_ne_true, if_pos (.inl hall), List.take_left, List.drop_left]
  have hbuf : overwrite (resize ((frame m ++ rest).take tcpHeaderSize) m.length) 0 m = m :=
    overwrite_all _ _ (resize_length _ _)
  rw [onReadAvailable_header hc (by simp [frame, tcpHeaderSize]) rfl]
  simp only [hfield, takes_uncapped, hdrop, hrecv, hbuf, if_neg (show ¬ m.length = 0 by omega)]

theorem onReadAvailable_frame {c : TcpIoConnection} (hc : c.Live) (m rest : Bytes)
    (eof : Bool) (h1 : 1 ≤ m.length) (h2 : m.length ≤ maxMessage) :
    onReadAvailable c ⟨frame m ++ rest, eof⟩ {} =
      some ⟨{ c with receiveBuffer := [] }, ⟨rest, eof⟩, some (.handleData m m.length),
        m.length⟩ := by
  have hmax : m.length ≤ 2 ^ 31 - 1 - 5 := h2
  rw [onReadAvailable_message hc m rest eof h1 (by omega), toInt_of_fits (by omega)]

/-- sendData for each message in turn: the connection after it and all bytes written. -/
def sendAll (c : TcpIoConnection) : List Bytes → Option (TcpIoConnection × Bytes)
  | [] => some (c, [])
  | m :: ms => (sendData c m m.length sendsAll).bind fun out =>
      (sendAll out.conn ms).map fun (c', written) => (c', out.written ++ written)

/-- `n` calls of onReadAvailable without recv errors, with what each asks of the client. -/
def readN (c : TcpIoConnection) (s : Incoming) :
    Nat → Option (TcpIoConnection × Incoming × List (Option ClientCall))
  | 0 => some (c, s, [])
  | n+1 => (onReadAvailable c s {}).bind fun out =>
      (readN out.conn out.stream n).map fun (c', s', calls) => (c', s', out.call :: calls)

def frames (ms : List Bytes) : Bytes := ms.flatMap frame

/-- The messages that travel as one frame each. -/
def Framable (ms : List Bytes) : Prop := ∀ m ∈ ms, 1 ≤ m.length ∧ m.length ≤ maxMessage

theorem sendAll_frames (c : TcpIoConnection) (ms : List Bytes) (hc : Started c)
    (hm : Framable ms) :
    ∃ buffer, sendAll c ms = some ({ c with sendBuffer := buffer }, frames ms) := by
  induction ms generalizing c with
  | nil => exact ⟨c.sendBuffer, rfl⟩
  | cons m ms ih =>
    have hs := sendData_frame c m hc (hm m (by simp)).1 (hm m (by simp)).2
    obtain ⟨buffer, ht⟩ := ih { c with sendBuffer := frame m } hc
      fun x hx => hm x (List.mem_cons_of_mem m hx)
    exact ⟨buffer, by simp [sendAll, hs, ht, frames]⟩

theorem readN_frames (c : TcpIoConnection) (ms : List Bytes) (rest : Bytes) (eof : Bool)
    (hc : c.Live) (hm : Framable ms) :
    ∃ c', c'.Live ∧ readN c ⟨frames ms ++ rest, eof⟩ ms.length =
      some (c', ⟨rest, eof⟩, ms.map fun m => some (.handleData m m.length)) := by
  induction ms generalizing c with
  | nil => exact ⟨c, hc, rfl⟩
  | cons m ms ih =>
    have hr := onReadAvailable_frame hc m (frames ms ++ rest) eof (hm m (by simp)).1
      (hm m (by simp)).2
    obtain ⟨c', hlive, ht⟩ := ih { c with receiveBuffer := [] } hc
      fun x hx => hm x (List.mem_cons_of_mem m hx)
    have hsplit : frames (m :: ms) ++ rest = frame m ++ (frames ms ++ rest) := by
      simp [frames]
    exact ⟨c', hlive, by rw [hsplit]; simp [readN, hr, ht]⟩

/-- Messages written in order come out of the stream one per read, in order and whole,
for any buffer contents at either end, and the stream is used up. -/
theorem framing_round_trip (ms : List Bytes) (c d : TcpIoConnection) (eof : Bool)
    (hm : Framable ms) (hc : Started c) (hd : d.Live) :
    (∃ c' stream, sendAll c ms = some (c', stream) ∧
      ∃ d', readN d ⟨stream, eof⟩ ms.length =
        some (d', ⟨[], eof⟩, ms.map fun m => some (.handleData m m.length))) ∧
    ∀ (n : UInt32) (rest : Bytes), getUint32FromChars (setUint32ToChars n ++ rest) = n := by
  refine ⟨?_, getUint32FromChars_setUint32ToChars⟩
  obtain ⟨buffer, hs⟩ := sendAll_frames c ms hc hm
  obtain ⟨d', -, hr⟩ := readN_frames d ms [] eof hd hm
  exact ⟨_, frames ms, hs, d', by simpa using hr⟩

theorem framing_round_trip_hi :
    (∃ c' stream, sendAll ⟨.started, [9], [], 4, .client, true⟩ [[104, 105], [33]] =
        some (c', stream) ∧
      ∃ d', readN ⟨.started, [], [7], 5, .server, true⟩ ⟨stream, false⟩ 2 =
        some (d', ⟨[], false⟩, [some (.handleData [104, 105] 2), some (.handleData [33] 1)])) ∧
    ∀ (n : UInt32) (rest : Bytes), getUint32FromChars (setUint32ToChars n ++ rest) = n :=
  framing_round_trip [[104, 105], [33]] ⟨.started, [9], [], 4, .client, true⟩
    ⟨.started, [], [7], 5, .server, true⟩ false (by unfold Framable; decide)
    ⟨rfl, by decide⟩ ⟨rfl, by decide, rfl⟩

/-! Streams that need not be made of frames. -/

/-- The bytes that the payload read of a closed stream returns. -/
def payload (e : RecvErrors) (s : Bytes) : Bytes :=
  (s.drop tcpHeaderSize).take (e.takes (lengthField s))

theorem payload_eq_nil (e : RecvErrors) (s : Bytes) :
    payload e s = [] ↔ s.length ≤ tcpHeaderSize ∨ lengthField s = 0 := by
  rw [payload, List.take_eq_nil_iff, List.drop_eq_nil_iff, takes_eq_zero, or_comm]

theorem payload_length (e : RecvErrors) (s : Bytes) :
    (payload e s).length = min (e.takes (lengthField s)) (s.length - tcpHeaderSize) := by
  simp [payload]

/-- The two reads both return bytes. -/
def Delivers (s : Bytes) (e : RecvErrors) : Prop :=
  e.header = false ∧ e.payload = false ∧ payload e s ≠ []

theorem recv_eof (b : Bytes) (n : Nat) (fails : Bool) :
    (recv ⟨b, true⟩ n fails).isSome := by
  cases fails <;> simp [recv]

theorem recv_bytes {s s' : Incoming} {n : Nat} {fails : Bool} {data : Bytes}
    (h : recv s n fails = some (some data, s')) :
    fails = false ∧ (s.eof = true ∨ max n 1 ≤ s.bytes.length) ∧ data = s.bytes.take n ∧
      s' = ⟨s.bytes.drop n, s.eof⟩ := by
  unfold recv at h
  split_ifs at h with hf hn
  · cases h
  · obtain ⟨hdata, hs⟩ := Prod.mk.inj (Option.some.inj h)
    exact ⟨by simpa using hf, hn.symm, (Option.some.inj hdata).symm, hs.symm⟩

theorem recv_fails {s s' : Incoming} {n : Nat} {fails : Bool}
    (h : recv s n fails = some (none, s')) : fails = true ∧ s' = s := by
  unfold recv at h
  split_ifs at h with hf hn
  · exact ⟨hf, (Prod.mk.inj (Option.some.inj h)).2.symm⟩
  · cases (Prod.mk.inj (Option.some.inj h)).1

/-- A header cut short by the end of the stream leaves nothing for the second recv. -/
theorem onReadAvailable_short {c : TcpIoConnection} {s : Incoming} {e : RecvErrors}
    (hc : c.Live) (hs : s.bytes.length < tcpHeaderSize) (he : e.header = false) :
    onReadAvailable c s e =
      if s.eof = false then none
      else if s.bytes = [] then some ⟨{ c with receiveBuffer := [] }, s, some .handleEvent, 0⟩
      else if e.payload = true then some ⟨{ c with receiveBuffer := [] }, ⟨[], true⟩, none, -1⟩
      else some ⟨{ c with receiveBuffer := [] }, ⟨[], true⟩, some .handleEvent, 0⟩ := by
  have hguards : (c.state ≠ .started) = False ∧ (c.socketFd < 0) = False ∧
      (c.ioClient = false) = False := by
    obtain ⟨hstate, hfd, hclient⟩ := hc
    exact ⟨by simp [hstate], by simp [not_lt.mpr hfd], by simp [hclient]⟩
  obtain ⟨hstate, hfd, hclient⟩ := hguards
  cases heof : s.eof with
  | false =>
    have hblocked : recv s tcpHeaderSize false = none := by simp [recv, heof, not_le.mpr hs]
    simp [onReadAvailable, hstate, hfd, hclient, he, hblocked]
  | true =>
    have hrecv : recv s tcpHeaderSize false = some (some s.bytes, ⟨[], true⟩) := by
      simp [recv, heof, List.take_of_length_le hs.le, List.drop_eq_nil_of_le hs.le]
    have hend : s.bytes = [] → s = ⟨[], true⟩ := fun hempty => by rw [← hempty, ← heof]
    by_cases hempty : s.bytes = []
    · simp [onReadAvailable, hstate, hfd, hclient, he, hrecv, hempty, ← hend]
    · have hrest (n : Nat) : recv ⟨[], true⟩ n e.payload =
          some (if e.payload = true then none else some [], ⟨[], true⟩) := by
        cases hp : e.payload <;> simp [recv]
      cases hp : e.payload <;>
      simp [onReadAvailable, hstate, hfd, hclient, he, hrecv, hempty, hp, hp ▸ hrest]

/-- Everything that a read of a live connection may do: the header read fails, or finds
nothing; the payload read fails, or both return. -/
theorem onReadAvailable_cases {c : TcpIoConnection} {s : Incoming} {e : RecvErrors} {out : ReadOut}
    (hc : c.Live) (h : onReadAvailable c s e = some out) :
    out.conn = { c with receiveBuffer := [] } ∧
    (e.header = true ∧ out.call = none ∧ out.stream = s ∨
    e.header = false ∧ s = ⟨[], true⟩ ∧ out.call = some .handleEvent ∧ out.stream = s ∨
    e.header = false ∧ e.payload = true ∧ s.bytes ≠ [] ∧ out.call = none ∧
      out.stream = ⟨s.bytes.drop tcpHeaderSize, s.eof⟩ ∨
    e.header = false ∧ e.payload = false ∧ s.bytes ≠ [] ∧
      (s.eof = true ∨
        tcpHeaderSize + max (e.takes (lengthField s.bytes)) 1 ≤ s.bytes.length) ∧
      out.stream = ⟨s.bytes.drop (tcpHeaderSize + e.takes (lengthField s.bytes)), s.eof⟩ ∧
      out.call = some (if payload e s.bytes = [] then .handleEvent else
        .handleData (overwrite (resize (s.bytes.take tcpHeaderSize) (lengthField s.bytes)) 0
          (payload e s.bytes)) (toInt (payload e s.bytes).length))) := by
  cases he : e.header with
  | true =>
    obtain ⟨hstate, hfd, hclient⟩ := hc
    have hout : onReadAvailable c s e = some ⟨{ c with receiveBuffer := [] }, s, none, -1⟩ := by
      simp [onReadAvailable, recv, he, hstate, hclient, not_lt.mpr hfd]
    obtain rfl := Option.some.inj (hout.symm.trans h)
    exact ⟨rfl, .inl ⟨rfl, rfl, rfl⟩⟩
  | false =>
    by_cases hs : tcpHeaderSize ≤ s.bytes.length
    · have hne : s.bytes ≠ [] := by
        rintro hnil
        rw [hnil] at hs
        exact absurd hs (by decide)
      rw [onReadAvailable_header hc hs he] at h
      rcases hrecv : recv ⟨s.bytes.drop tcpHeaderSize, s.eof⟩ (e.takes (lengthField s.bytes))
        e.payload with _ | ⟨_ | data, s'⟩
      · rw [hrecv] at h
        cases h
      · obtain ⟨hp, rfl⟩ := recv_fails hrecv
        rw [hrecv] at h
        obtain rfl := Option.some.inj h
        exact ⟨rfl, .inr (.inr (.inl ⟨rfl, hp, hne, rfl, rfl⟩))⟩
      · obtain ⟨hp, hthere, hdata, rfl⟩ := recv_bytes hrecv
        obtain rfl : data = payload e s.bytes := hdata
        have hall : s.eof = true ∨
            tcpHeaderSize + max (e.takes (lengthField s.bytes)) 1 ≤ s.bytes.length := by
          refine hthere.imp_right fun hle => ?_
          rw [List.length_drop] at hle
          omega
        simp only [hrecv, List.length_eq_zero_iff, List.drop_drop] at h
        split_ifs at h with hnil
        · obtain rfl := Option.some.inj h
          exact ⟨rfl, .inr (.inr (.inr ⟨rfl, hp, hne, hall, rfl, by rw [if_pos hnil]⟩))⟩
        · obtain rfl := Option.some.inj h
          exact ⟨rfl, .inr (.inr (.inr ⟨rfl, hp, hne, hall, rfl, by rw [if_neg hnil]⟩))⟩
    · have hshort : s.bytes.length < tcpHeaderSize := not_le.mp hs
      have hdrop : s.bytes.drop tcpHeaderSize = [] := List.drop_eq_nil_of_le hshort.le
      have hall : s.bytes.drop (tcpHeaderSize + e.takes (lengthField s.bytes)) = [] :=
        List.drop_eq_nil_of_le (by omega)
      have hnil : payload e s.bytes = [] := (payload_eq_nil _ _).mpr (.inl hshort.le)
      rw [onReadAvailable_short hc hshort he] at h
      split_ifs at h with heof hempty hp
      · obtain rfl := Option.some.inj h
        have hs : s = ⟨[], true⟩ := by rw [← hempty, ← eq_true_of_ne_false heof]
        exact ⟨rfl, .inr (.inl ⟨rfl, hs, rfl, rfl⟩)⟩
      · obtain rfl := Option.some.inj h
        rw [Bool.not_eq_false] at heof
        exact ⟨rfl, .inr (.inr (.inl ⟨rfl, hp, hempty, rfl, by rw [hdrop, heof]⟩))⟩
      · obtain rfl := Option.some.inj h
        rw [Bool.not_eq_false] at heof
        rw [Bool.not_eq_true] at hp
        exact ⟨rfl, .inr (.inr (.inr ⟨rfl, hp, hempty, .inl heof, by rw [hall, heof],
          by rw [if_pos hnil]⟩))⟩

theorem onReadAvailable_closed (c : TcpIoConnection) (s : Bytes) (e : RecvErrors) :
    (onReadAvailable c ⟨s, true⟩ e).isSome := by
  unfold onReadAvailable
  split_ifs <;> try rfl
  dsimp only
  rcases hheader : recv ⟨s, true⟩ tcpHeaderSize e.header with _ | ⟨_ | data, s'⟩
  · exact absurd hheader (Option.isSome_iff_ne_none.mp (recv_eof s _ _))
  · rfl
  · obtain ⟨-, -, -, rfl⟩ := recv_bytes hheader
    dsimp only
    split_ifs with hempty
    · rfl
    · obtain ⟨⟨_ | data', s'⟩, hpayload⟩ := Option.isSome_iff_exists.mp
        (recv_eof (s.drop tcpHeaderSize) (e.takes (TcpHeader.deserialerFrom
          (overwrite (resize c.receiveBuffer tcpHeaderSize) 0 data)).messageLen.toNat) e.payload)
      · rw [hpayload]
        rfl
      · rw [hpayload]
        dsimp only
        split_ifs <;> rfl

/-- At the end of a stream every read returns, and hands data over exactly when both recv
calls return bytes. -/
theorem onReadAvailable_eof {c : TcpIoConnection} (hc : c.Live) (s : Bytes)
    (e : RecvErrors) :
    ∃ out, onReadAvailable c ⟨s, true⟩ e = some out ∧ out.conn.Live ∧
      out.stream.eof = true ∧
      (Delivers s e → out.call = some (.handleData (overwrite (resize (s.take tcpHeaderSize)
        (lengthField s)) 0 (payload e s)) (toInt (payload e s).length))) ∧
      (¬ Delivers s e → ∀ pData len, out.call ≠ some (.handleData pData len)) := by
  obtain ⟨out, hout⟩ := Option.isSome_iff_exists.mp (onReadAvailable_closed c s e)
  obtain ⟨hconn, hcases⟩ := onReadAvailable_cases hc hout
  refine ⟨out, hout, hconn ▸ hc, ?_⟩
  rcases hcases with ⟨he, hcall, hstream⟩ | ⟨-, hs, hcall, hstream⟩ |
    ⟨-, hp, -, hcall, hstream⟩ | ⟨he, hp, -, -, hstream, hcall⟩
  · refine ⟨by rw [hstream], fun hd => ?_, fun _ => by simp [hcall]⟩
    exact absurd (he.symm.trans hd.1) (by decide)
  · refine ⟨by rw [hstream], fun hd => ?_, fun _ => by simp [hcall]⟩
    obtain rfl : s = [] := congrArg Incoming.bytes hs
    exact absurd List.take_nil hd.2.2
  · refine ⟨by rw [hstream], fun hd => ?_, fun _ => by simp [hcall]⟩
    exact absurd (hp.symm.trans hd.2.1) (by decide)
  · by_cases hnil : payload e s = []
    · exact ⟨by rw [hstream], fun hd => absurd hnil hd.2.2, fun _ => by simp [hcall, hnil]⟩
    · refine ⟨by rw [hstream], fun _ => by rw [hcall, if_neg hnil], fun hd => ?_⟩
      exact absurd ⟨he, hp, hnil⟩ hd

/-- One call of onReadAvailable: the unread stream and the recv errors it meets, and what
it asks of the client. -/
structure Read where
  before : Bytes
  errors : RecvErrors
  call : Option ClientCall
  deriving DecidableEq

def readAll (c : TcpIoConnection) (s : Incoming) : List RecvErrors → Option (List Read)
  | [] => some []
  | e :: es => (onReadAvailable c s e).bind fun out =>
      (readAll out.conn out.stream es).map fun reads => ⟨s.bytes, e, out.call⟩ :: reads

/-- The data handed over is a message whose complete frame is next in the stream. -/
def HandsOverFrame (r : Read) : Prop :=
  ∀ pData len, r.call = some (.handleData pData len) → 0 < len ∧
    (pData.take len.toNat).length = len ∧ frame (pData.take len.toNat) <+: r.before

/-- A recv fails, or nothing follows the header, or it announces no payload, or it starts
with the magic byte and the payload it announces is all there, no longer than an int and no
more than one recv takes. -/
def FrameAhead (r : Read) : Prop :=
  r.errors.header = true ∨ r.errors.payload = true ∨ r.before.length ≤ tcpHeaderSize ∨
    lengthField r.before = 0 ∨ (r.before.head? = some tcpHeaderMagic ∧
      lengthField r.before < 2 ^ 31 ∧
      r.errors.takes (lengthField r.before) = lengthField r.before ∧
      tcpHeaderSize + lengthField r.before ≤ r.before.length)

theorem not_delivers_frameAhead {s : Bytes} {e : RecvErrors} (h : ¬ Delivers s e)
    (call : Option ClientCall) : FrameAhead ⟨s, e, call⟩ := by
  cases he : e.header with
  | true => exact Or.inl he
  | false =>
    cases hp : e.payload with
    | true => exact Or.inr (Or.inl hp)
    | false =>
      have hnil : payload e s = [] := by
        by_contra hne
        exact h ⟨he, hp, hne⟩
      rcases (payload_eq_nil e s).1 hnil with hshort | hzero
      · exact Or.inr (Or.inr (Or.inl hshort))
      · exact Or.inr (Or.inr (Or.inr (Or.inl hzero)))

theorem frame_payload_isPrefix {s : Bytes} {e : RecvErrors} (hs : tcpHeaderSize < s.length)
    (hl : lengthField s ≠ 0) : frame (payload e s) <+: s ↔
      s.head? = some tcpHeaderMagic ∧ e.takes (lengthField s) = lengthField s ∧
        tcpHeaderSize + lengthField s ≤ s.length := by
  have hlt := lengthField_lt s
  have htakes := takes_le e (lengthField s)
  have hlen := payload_length e s
  constructor
  · rintro ⟨rest, hr⟩
    have hfield := lengthField_frame (payload e s) rest (by omega)
    rw [hr] at hfield
    exact ⟨by rw [← hr]; rfl, by omega, by omega⟩
  · rintro ⟨hmagic, htake, hall⟩
    have hfull : (payload e s).length = lengthField s := by omega
    match s, hs with
    | x :: a :: b :: c :: d :: rest, _ =>
      obtain rfl : x = tcpHeaderMagic := by simpa using hmagic
      have hhead : beBytes 4 (lengthField (tcpHeaderMagic :: a :: b :: c :: d :: rest)) =
          [a, b, c, d] := beBytes_beValue [a, b, c, d]
      refine ⟨rest.drop (lengthField (tcpHeaderMagic :: a :: b :: c :: d :: rest)), ?_⟩
      rw [frame, hfull, hhead]
      simp [payload, htake, tcpHeaderSize]

/-- What a delivering read hands over is a frame's message exactly when that frame is
next in the stream. -/
theorem handsOverFrame_iff {s : Bytes} {e : RecvErrors} {call : Option ClientCall}
    (hd : Delivers s e)
    (hcall : call = some (.handleData (overwrite (resize (s.take tcpHeaderSize)
      (lengthField s)) 0 (payload e s)) (toInt (payload e s).length))) :
    HandsOverFrame ⟨s, e, call⟩ ↔ FrameAhead ⟨s, e, call⟩ := by
  obtain ⟨he, hp, hne⟩ := hd
  have hnil := (payload_eq_nil e s).not.mp hne
  have hlt := lengthField_lt s
  have htakes := takes_le e (lengthField s)
  have hlen := payload_length e s
  have hahead : FrameAhead ⟨s, e, call⟩ ↔ s.head? = some tcpHeaderMagic ∧
      lengthField s < 2 ^ 31 ∧ e.takes (lengthField s) = lengthField s ∧
        tcpHeaderSize + lengthField s ≤ s.length := by
    simp only [FrameAhead, he, hp, Bool.false_eq_true, false_or]
    tauto
  have hframe := frame_payload_isPrefix (e := e) (s := s) (by omega) (by omega)
  rw [hahead]
  by_cases hbig : (payload e s).length < 2 ^ 31
  · have hto := toInt_of_fits hbig
    have htake : (overwrite (resize (s.take tcpHeaderSize) (lengthField s)) 0
        (payload e s)).take (toInt (payload e s).length).toNat = payload e s := by
      rw [hto, Int.toNat_natCast, take_overwrite]
    have hhands : HandsOverFrame ⟨s, e, call⟩ ↔ frame (payload e s) <+: s := by
      constructor
      · intro h
        simpa only [htake] using (h _ _ hcall).2.2
      · intro h pData len hc
        obtain ⟨rfl, rfl⟩ : _ = pData ∧ _ = len := by simpa using hcall.symm.trans hc
        rw [htake]
        exact ⟨by rw [hto]; exact_mod_cast List.length_pos_iff.mpr hne, hto.symm, h⟩
    rw [hhands, hframe]
    exact ⟨fun h => ⟨h.1, by omega, h.2⟩, fun h => ⟨h.1, h.2.2⟩⟩
  · have hneg : ¬ 0 < toInt (payload e s).length := by
      unfold toInt
      rw [Int.bmod_def]
      omega
    exact ⟨fun h => absurd (h _ _ hcall).1 hneg, fun h => by omega⟩

/-- On every closed stream and for any recv errors: the reads hand over messages of
complete frames only, if and only if each delivering read finds such a frame ahead. -/
theorem handsOverFrames_iff_framesAhead (c : TcpIoConnection) (s : Bytes)
    (es : List RecvErrors) (hc : c.Live) :
    ∃ reads, readAll c ⟨s, true⟩ es = some reads ∧ reads.length = es.length ∧
      ((∀ r ∈ reads, HandsOverFrame r) ↔ ∀ r ∈ reads, FrameAhead r) := by
  induction es generalizing c s with
  | nil => exact ⟨[], rfl, rfl, by simp⟩
  | cons e es ih =>
    obtain ⟨⟨c', ⟨s', eof⟩, call, res⟩, hread, hlive, rfl, hyes, hno⟩ :=
      onReadAvailable_eof hc s e
    obtain ⟨reads, hall, hlen, hiff⟩ := ih c' s' hlive
    refine ⟨⟨s, e, call⟩ :: reads, by simp [readAll, hread, hall], by simp [hlen], ?_⟩
    have hone : HandsOverFrame ⟨s, e, call⟩ ↔ FrameAhead ⟨s, e, call⟩ := by
      by_cases hd : Delivers s e
      · exact handsOverFrame_iff hd (hyes hd)
      · exact iff_of_true (fun pData len h => absurd h (hno hd pData len))
          (not_delivers_frameAhead hd call)
    rw [List.forall_mem_cons, List.forall_mem_cons, hone, hiff]

theorem handsOverFrames_iff_framesAhead_hi :
    ∃ reads, readAll ⟨.started, [], [], 5, .server, true⟩
        ⟨[1, 0, 0, 0, 2, 104, 105, 1, 0, 0, 0, 9, 33], true⟩ [{}, {}] = some reads ∧
      reads.length = 2 ∧ ((∀ r ∈ reads, HandsOverFrame r) ↔ ∀ r ∈ reads, FrameAhead r) :=
  handsOverFrames_iff_framesAhead ⟨.started, [], [], 5, .server, true⟩
    [1, 0, 0, 0, 2, 104, 105, 1, 0, 0, 0, 9, 33] [{}, {}] ⟨rfl, by decide, rfl⟩

/-- A header without the magic byte and a payload cut short are both handed over. -/
theorem readAll_hands_over_fragments :
    ¬ ∀ (c : TcpIoConnection) (s : Bytes) (es : List RecvErrors) (reads : List Read), c.Live →
      readAll c ⟨s, true⟩ es = some reads → ∀ r ∈ reads, HandsOverFrame r := by
  intro h
  have hread : readAll ⟨.started, [], [], 5, .server, true⟩ ⟨[7, 0, 0, 0, 9, 65], true⟩ [{}] =
      some [⟨[7, 0, 0, 0, 9, 65], {},
        some (.handleData [65, 0, 0, 0, 9, 0, 0, 0, 0] 1)⟩] := by decide +kernel
  have hr := h _ _ _ _ ⟨rfl, by decide, rfl⟩ hread _ (List.mem_singleton.mpr rfl) _ _ rfl
  exact absurd hr.2.2 (by decide)

end DericRpc.Framing
