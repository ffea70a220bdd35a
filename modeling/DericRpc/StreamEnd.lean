import DericRpc.Framing
import DericRpc.Lib.Lts

/-! A connection over the bytes that its peer sends, in any pieces, and the end of them: when a
read reports that the connection is being closed. -/
namespace DericRpc.StreamEnd
open ByteString Connection Framing Lts

/-- `call` is what the last step asked of the client. -/
structure Sys where
  conn : TcpIoConnection
  stream : Incoming
  call : Option ClientCall := none

inductive Act where
  | arrive (data : Bytes)
  | peerClose
  | read (errors : RecvErrors)
  | stop

def step (s : Sys) : Act → Option Sys
  | .arrive data =>
    if s.stream.eof = false then
      some { s with stream := ⟨s.stream.bytes ++ data, false⟩, call := none }
    else none
  | .peerClose =>
    if s.stream.eof = false then
      some { s with stream := ⟨s.stream.bytes, true⟩, call := none }
    else none
  | .read errors => (onReadAvailable s.conn s.stream errors).map fun out =>
      ⟨out.conn, out.stream, out.call⟩
  | .stop => some { s with conn := (Connection.stop s.conn).conn, call := none }

/-- TCP_IO_CONNECTION_EVENT_CLOSE comes only when the peer has closed and nothing is unread. -/
def ClosesAtEnd (m : Move Sys Act) : Prop :=
  m.post.call = some .handleEvent → m.post.stream = ⟨[], true⟩

/-- A header that announces no payload, and is read without an error, is all that is left of
a stream that the peer has closed. -/
def EmptyFrameLast (s : Sys) : Act → Prop
  | .read e => s.conn.Live → e.header = false → e.payload = false →
      tcpHeaderSize ≤ s.stream.bytes.length → lengthField s.stream.bytes = 0 →
      s.stream.bytes.length = tcpHeaderSize ∧ s.stream.eof = true
  | _ => True

/-- Two recv calls that both return leave nothing, unless an empty frame stands before more. -/
theorem drop_frame_eq_nil {s : Incoming} {e : RecvErrors}
    (hall : s.eof = true ∨ tcpHeaderSize + max (e.takes (lengthField s.bytes)) 1 ≤ s.bytes.length) :
    (payload e s.bytes = [] → s.bytes.drop (tcpHeaderSize + e.takes (lengthField s.bytes)) = [] ∧
      s.eof = true) ↔
    (tcpHeaderSize ≤ s.bytes.length → lengthField s.bytes = 0 →
      s.bytes.length = tcpHeaderSize ∧ s.eof = true) := by
  rw [payload_eq_nil, List.drop_eq_nil_iff]
  by_cases hzero : lengthField s.bytes = 0
  · rw [takes_eq_zero.mpr hzero] at hall ⊢
    rcases Nat.lt_or_ge s.bytes.length tcpHeaderSize with hshort | hheader
    · have heof := hall.resolve_right (by omega)
      exact iff_of_true (fun _ => ⟨by omega, heof⟩) fun hle => by omega
    · simp only [hzero, or_true, hheader, true_implies]
      exact and_congr_left fun _ => by omega
  · refine iff_of_true (fun hnil => ?_) fun _ hlen => absurd hlen hzero
    have hshort := hnil.resolve_right hzero
    exact ⟨by omega, hall.resolve_right (by omega)⟩

theorem read_iff {c : TcpIoConnection} {s : Incoming} {e : RecvErrors} {out : ReadOut}
    (h : onReadAvailable c s e = some out) :
    (out.call = some .handleEvent → out.stream = ⟨[], true⟩) ↔
      (c.Live → e.header = false → e.payload = false → tcpHeaderSize ≤ s.bytes.length →
        lengthField s.bytes = 0 → s.bytes.length = tcpHeaderSize ∧ s.eof = true) := by
  by_cases hc : c.Live
  · obtain ⟨-, hcases⟩ := onReadAvailable_cases hc h
    rcases hcases with ⟨he, hcall, -⟩ | ⟨-, rfl, -, hstream⟩ | ⟨-, hp, -, hcall, -⟩ |
      ⟨he, hp, -, hall, hstream, hcall⟩
    · simp [hcall, he]
    · exact iff_of_true (fun _ => hstream) fun _ _ _ hshort => absurd hshort (by decide)
    · simp [hcall, hp]
    · have hclose : out.call = some .handleEvent ↔ payload e s.bytes = [] := by
        rw [hcall]
        split_ifs with hnil <;> simp [hnil]
      rw [hclose, hstream, Incoming.mk.injEq, drop_frame_eq_nil hall]
      simp [hc, he, hp]
  · obtain rfl := Option.some.inj ((onReadAvailable_dead hc s e).symm.trans h)
    exact iff_of_true (fun hcall => nomatch hcall) fun hlive => absurd hlive hc

theorem step_iff {s t : Sys} {a : Act} (h : step s a = some t) :
    ClosesAtEnd ⟨s, a, t⟩ ↔ EmptyFrameLast s a := by
  cases a with
  | arrive data =>
    obtain ⟨-, rfl⟩ := enabled h
    exact iff_of_true nofun trivial
  | peerClose =>
    obtain ⟨-, rfl⟩ := enabled h
    exact iff_of_true nofun trivial
  | stop =>
    obtain rfl := Option.some.inj h
    exact iff_of_true nofun trivial
  | read e =>
    obtain ⟨out, hout, rfl⟩ := Option.map_eq_some_iff.mp h
    exact read_iff hout

/-- In every run, whatever arrives and however the reads fall: closes are reported at the end
of the stream only, if and only if no empty frame is read before it. -/
theorem closesAtEnd_iff {s t : Sys} {ms : List (Move Sys Act)} (h : Path step s ms t) :
    (∀ m ∈ ms, ClosesAtEnd m) ↔ ∀ m ∈ ms, EmptyFrameLast m.pre m.act :=
  h.moves_iff (J := fun _ => True) trivial (fun _ _ _ _ _ => trivial) fun _ _ hm => step_iff hm

def opened : Sys := { conn := connectedTo 4, stream := ⟨[], false⟩ }

theorem closesAtEnd_iff_message : ∃ ms t, Path step opened ms t ∧
    ms.map Move.act = [.arrive [1, 0, 0, 0, 1], .arrive [33], .read {}, .peerClose, .read {}] ∧
    t.call = some .handleEvent ∧
    ((∀ m ∈ ms, ClosesAtEnd m) ↔ ∀ m ∈ ms, EmptyFrameLast m.pre m.act) := by
  obtain ⟨t, hrun, hcall⟩ : ∃ t, run step opened
      [.arrive [1, 0, 0, 0, 1], .arrive [33], .read {}, .peerClose, .read {}] = some t ∧
      t.call = some .handleEvent := ⟨_, rfl, rfl⟩
  obtain ⟨ms, hp, hacts⟩ := path_of_run hrun
  exact ⟨ms, t, hp, hacts, hcall, closesAtEnd_iff hp⟩

def emptyFrame : Sys := { opened with stream := ⟨[1, 0, 0, 0, 0, 0x5a], false⟩ }

def afterEmptyFrame : Sys := { opened with stream := ⟨[0x5a], false⟩, call := some .handleEvent }

/-- The header 01 00 00 00 00 with a byte behind it makes the read of an open connection report
its close. -/
theorem empty_frame_closes :
    ¬ ∀ (s t : Sys) (ms : List (Move Sys Act)), Path step s ms t → ∀ m ∈ ms, ClosesAtEnd m := by
  intro h
  have harrive : step opened (.arrive [1, 0, 0, 0, 0, 0x5a]) = some emptyFrame := rfl
  have hread : step emptyFrame (.read {}) = some afterEmptyFrame := rfl
  have hclose := h _ _ _ ((Path.nil.snoc harrive).snoc hread)
    ⟨emptyFrame, .read {}, afterEmptyFrame⟩ (by simp) rfl
  exact absurd hclose (by decide)

end DericRpc.StreamEnd
