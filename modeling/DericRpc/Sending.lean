import DericRpc.Framing
import Mathlib.Data.List.TakeDrop

/-! Any run of sendData calls over a kernel that transmits some prefix of what it is given:
what the calls report and what they leave on the stream. -/
namespace DericRpc.Sending
open ByteString Common Connection Framing

/-- One call: `data` is good for `len` bytes, and send fails (`none`) or answers with the
length of the prefix that it transmits. -/
structure SendCall where
  data : Bytes
  len : Int
  send : Bytes → Option Nat
  len_le : len ≤ data.length
  send_le : ∀ buffer n, send buffer = some n → n ≤ buffer.length

def SendCall.message (k : SendCall) : Bytes := k.data.take k.len.toNat

/-- The calls of a run with their results; none when a frame length overflows int. -/
def sendEach (c : TcpIoConnection) : List SendCall → Option (List (SendCall × SendOut))
  | [] => some []
  | k :: calls => (sendData c k.data k.len k.send).bind fun out =>
      (sendEach out.conn calls).map fun results => (k, out) :: results

/-- A call that reports success has written the frame of its message. -/
def WholeFrame (r : SendCall × SendOut) : Prop := 0 ≤ r.2.res → r.2.written = frame r.1.message

def stream (results : List (SendCall × SendOut)) : Bytes := results.flatMap fun r => r.2.written

/-- Each success is a whole frame, and a run of successes leaves the frames one after another. -/
def SendsFrames (results : List (SendCall × SendOut)) : Prop :=
  (∀ r ∈ results, WholeFrame r) ∧ ((∀ r ∈ results, 0 ≤ r.2.res) →
    stream results = frames (results.map fun r => r.1.message))

/-- If send is called and does not fail, it transmits the frame to its last byte. -/
def SendCall.TakesAll (k : SendCall) : Prop :=
  0 < k.len → ∀ n, k.send (frame k.message) = some n → n = (frame k.message).length

theorem sendEach_cons (c : TcpIoConnection) (k : SendCall) (calls : List SendCall)
    (results : List (SendCall × SendOut)) : sendEach c (k :: calls) = some results ↔
      ∃ out rest, sendData c k.data k.len k.send = some out ∧
        sendEach out.conn calls = some rest ∧ (k, out) :: rest = results := by
  simp only [sendEach, Option.bind_eq_some_iff, Option.map_eq_some_iff]
  grind

theorem sendsFrames_of_whole {results : List (SendCall × SendOut)}
    (h : ∀ r ∈ results, WholeFrame r) : SendsFrames results := by
  refine ⟨h, fun hres => ?_⟩
  induction results with
  | nil => rfl
  | cons r results ih =>
    rw [List.forall_mem_cons] at h hres
    have hr : r.2.written = frame r.1.message := h.1 hres.1
    have hrest := ih h.2 hres.2
    simp only [stream, frames] at hrest
    simp only [stream, frames, List.flatMap_cons, List.map_cons, hr, hrest]

theorem wholeFrame_failed (k : SendCall) (c : TcpIoConnection) : WholeFrame (k, ⟨c, [], -1⟩) :=
  fun hres => absurd (show (0 : Int) ≤ -1 from hres) (by decide)

theorem sendData_refuses {c : TcpIoConnection} {k : SendCall} (h : k.len ≤ 0) :
    sendData c k.data k.len k.send = some ⟨c, [], -1⟩ := by
  unfold sendData
  split_ifs <;> rfl

theorem message_frame_length {k : SendCall} (h : 0 < k.len) :
    ((frame k.message).length : Int) = tcpHeaderSize + k.len := by
  have htake : k.message.length = k.len.toNat :=
    List.length_take_of_le (by have := k.len_le; omega)
  rw [frame_length, htake]
  omega

theorem sendData_call {c : TcpIoConnection} {k : SendCall} (hc : Started c) (h1 : 0 < k.len)
    (h2 : tcpHeaderSize + k.len ≤ intMax) : sendData c k.data k.len k.send = some
      (match k.send (frame k.message) with
      | none => ⟨{ c with sendBuffer := frame k.message }, [], -1⟩
      | some n => ⟨{ c with sendBuffer := frame k.message }, (frame k.message).take n, toInt n⟩) :=
  sendData_message c k.send hc h1 h2 k.len_le

theorem sendData_isSome {c : TcpIoConnection} (hc : Started c) (k : SendCall) :
    (sendData c k.data k.len k.send).isSome ↔ tcpHeaderSize + k.len ≤ intMax := by
  by_cases hpos : 0 < k.len
  · by_cases hfit : tcpHeaderSize + k.len ≤ intMax
    · rw [sendData_call hc hpos hfit]
      simp [hfit]
    · have hnone : sendData c k.data k.len k.send = none := by
        simp [sendData, hc.1, not_lt.mpr hc.2, not_le.mpr hpos, not_le.mp hfit]
      simp [hnone, hfit]
  · have hfit : tcpHeaderSize + k.len ≤ intMax := by
      simp only [tcpHeaderSize, intMax]
      omega
    simp [sendData_refuses (not_lt.mp hpos), hfit]

/-- One call: its success is a whole frame exactly when send takes all that it is given. -/
theorem sendData_wholeFrame {c : TcpIoConnection} (hc : Started c) {k : SendCall} {out : SendOut}
    (h : sendData c k.data k.len k.send = some out) :
    Started out.conn ∧ (WholeFrame (k, out) ↔ k.TakesAll) := by
  by_cases hpos : 0 < k.len
  · have hfit : tcpHeaderSize + k.len ≤ intMax :=
      (sendData_isSome hc k).mp (Option.isSome_of_eq_some h)
    have hlength := message_frame_length hpos
    rw [sendData_call hc hpos hfit] at h
    cases hsend : k.send (frame k.message) with
    | none =>
      rw [hsend] at h
      obtain rfl := Option.some.inj h
      refine ⟨hc, iff_of_true (wholeFrame_failed k _) fun _ n hn => ?_⟩
      rw [hsend] at hn
      cases hn
    | some n =>
      simp only [hsend] at h
      obtain rfl := Option.some.inj h
      have hle := k.send_le _ _ hsend
      have hto : toInt n = n := toInt_of_fits (by simp only [intMax] at hfit; omega)
      have hall : k.TakesAll ↔ n = (frame k.message).length := by
        simp [SendCall.TakesAll, hpos, hsend]
      have htake : (frame k.message).take n = frame k.message ↔ n = (frame k.message).length := by
        rw [List.take_eq_self_iff]
        omega
      rw [hall, ← htake, hto]
      exact ⟨hc, fun hw => hw (Int.natCast_nonneg n), fun he _ => he⟩
  · have hrefused := sendData_refuses (c := c) (not_lt.mp hpos)
    obtain rfl := Option.some.inj (hrefused.symm.trans h)
    exact ⟨hc, iff_of_true (wholeFrame_failed k _) fun hlen => absurd hlen hpos⟩

theorem sendEach_isSome (c : TcpIoConnection) (calls : List SendCall) (hc : Started c) :
    (sendEach c calls).isSome ↔ ∀ k ∈ calls, tcpHeaderSize + k.len ≤ intMax := by
  induction calls generalizing c with
  | nil => simp [sendEach]
  | cons k calls ih =>
    rw [List.forall_mem_cons, ← sendData_isSome hc k]
    cases hout : sendData c k.data k.len k.send with
    | none => simp [sendEach, hout]
    | some out =>
      have hstarted := (sendData_wholeFrame hc hout).1
      simp [sendEach, hout, ih out.conn hstarted]

theorem sendEach_whole {c : TcpIoConnection} {calls : List SendCall}
    {results : List (SendCall × SendOut)} (hc : Started c) (h : sendEach c calls = some results) :
    (∀ r ∈ results, WholeFrame r) ↔ ∀ k ∈ calls, k.TakesAll := by
  induction calls generalizing c results with
  | nil =>
    obtain rfl := Option.some.inj h
    simp
  | cons k calls ih =>
    obtain ⟨out, rest, hout, hrest, rfl⟩ := (sendEach_cons c k calls results).mp h
    obtain ⟨hstarted, hone⟩ := sendData_wholeFrame hc hout
    rw [List.forall_mem_cons, List.forall_mem_cons, hone, ih hstarted hrest]

/-- On a started connection a run of calls has results exactly when every frame length is an
int, and its successes are whole frames exactly when every send that does not fail takes all
of its buffer. -/
theorem sendsFrames_iff (c : TcpIoConnection) (calls : List SendCall) (hc : Started c) :
    ((sendEach c calls).isSome ↔ ∀ k ∈ calls, tcpHeaderSize + k.len ≤ intMax) ∧
    ∀ results, sendEach c calls = some results →
      (SendsFrames results ↔ ∀ k ∈ calls, k.TakesAll) := by
  refine ⟨sendEach_isSome c calls hc, fun results hres => ?_⟩
  rw [← sendEach_whole hc hres]
  exact ⟨And.left, sendsFrames_of_whole⟩

/-- A send of at most `limit` bytes. -/
def sendUpTo (data : Bytes) (limit : Nat) : SendCall where
  data := data
  len := data.length
  send := fun buffer => some (min limit buffer.length)
  len_le := le_rfl
  send_le := by simp

theorem sendsFrames_iff_hi :
    ((sendEach (connectedTo 4) [sendUpTo [104, 105] 9, sendUpTo [33] 9]).isSome ↔
      ∀ k ∈ [sendUpTo [104, 105] 9, sendUpTo [33] 9], tcpHeaderSize + k.len ≤ intMax) ∧
    ∀ results, sendEach (connectedTo 4) [sendUpTo [104, 105] 9, sendUpTo [33] 9] = some results →
      (SendsFrames results ↔ ∀ k ∈ [sendUpTo [104, 105] 9, sendUpTo [33] 9], k.TakesAll) :=
  sendsFrames_iff (connectedTo 4) _ ⟨rfl, by decide⟩

/-- A message cut after six of its seven bytes is reported as sent, and the next frame follows
the cut. -/
theorem short_send_reported :
    ¬ ∀ (c : TcpIoConnection) (calls : List SendCall) (results : List (SendCall × SendOut)),
      Started c → sendEach c calls = some results → SendsFrames results := by
  intro h
  have hc : Started (connectedTo 4) := ⟨rfl, by decide⟩
  obtain ⟨results, hrun⟩ := Option.isSome_iff_exists.mp
    ((sendEach_isSome _ [sendUpTo [104, 105] 6, sendUpTo [33] 6] hc).mpr (by decide))
  have htakes := (sendEach_whole hc hrun).mp (h _ _ _ hc hrun).1 _ List.mem_cons_self
  exact absurd (htakes (by decide) 6 rfl) (by decide)

end DericRpc.Sending
