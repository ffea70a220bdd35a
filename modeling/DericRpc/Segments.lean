import DericRpc.Framing
import DericRpc.Lib.Simulation
import DericRpc.Lib.Wires

/-! The reads of a connection whose bytes arrive in pieces of any size: TCP's segments do not
show in what the connection asks of its client. -/
namespace DericRpc.Segments
open ByteString Codec Common Connection Framing Lts Simulation Wires

/-- What a live connection's read takes off an open stream: header and payload whole, or
nothing, for then it blocks, as it does behind a header that announces no payload. -/
def nextCall : Reader ClientCall := fun b =>
  if tcpHeaderSize + max (lengthField b) 1 ≤ b.length then
    some (if lengthField b = 0 then .handleEvent
      else .handleData (payload {} b) (toInt (lengthField b)), b.drop (tcpHeaderSize + lengthField b))
  else none

/-- recvBytes as onReadAvailable returns it. -/
def result : ClientCall → Int
  | .handleEvent => 0
  | .handleData _ len => len

theorem onReadAvailable_open {c : TcpIoConnection} (hc : c.Live) (b : Bytes) :
    onReadAvailable c ⟨b, false⟩ {} = (nextCall b).map fun (call, rest) =>
      ⟨{ c with receiveBuffer := [] }, ⟨rest, false⟩, some call, result call⟩ := by
  by_cases hs : tcpHeaderSize ≤ b.length
  · rw [onReadAvailable_header hc hs rfl, takes_uncapped]
    by_cases hfit : tcpHeaderSize + max (lengthField b) 1 ≤ b.length
    · have hlen : (payload {} b).length = lengthField b := by
        rw [payload_length, takes_uncapped]
        omega
      have hrecv : recv ⟨b.drop tcpHeaderSize, false⟩ (lengthField b) false =
          some (some (payload {} b), ⟨b.drop (tcpHeaderSize + lengthField b), false⟩) := by
        have hdrop : max (lengthField b) 1 ≤ (b.drop tcpHeaderSize).length := by
          rw [List.length_drop]
          omega
        rw [recv, if_neg Bool.false_ne_true, if_pos (.inl hdrop), List.drop_drop]
        rfl
      have hbuf : overwrite (resize (b.take tcpHeaderSize) (lengthField b)) 0 (payload {} b) =
          payload {} b := overwrite_all _ _ (by rw [resize_length, hlen])
      rw [nextCall, if_pos hfit, Option.map_some]
      by_cases hzero : lengthField b = 0
      · simp only [hrecv, hlen, if_pos hzero, result]
      · simp only [hrecv, hlen, hbuf, if_neg hzero, result]
    · have hrecv : recv ⟨b.drop tcpHeaderSize, false⟩ (lengthField b) false = none := by
        have hdrop : ¬max (lengthField b) 1 ≤ (b.drop tcpHeaderSize).length := by
          rw [List.length_drop]
          omega
        simp only [recv, Bool.false_eq_true, if_false, hdrop, or_self]
      simp only [hrecv, nextCall, if_neg hfit, Option.map_none]
  · have hshort : ¬tcpHeaderSize + max (lengthField b) 1 ≤ b.length := by omega
    rw [onReadAvailable_short hc (not_le.mp hs) rfl]
    simp only [nextCall, if_neg hshort, Option.map_none, if_true]

theorem lengthField_append {b : Bytes} (h : tcpHeaderSize ≤ b.length) (s : Bytes) :
    lengthField (b ++ s) = lengthField b := by
  have hlong : tcpHeaderSize ≤ (b ++ s).length := by
    rw [List.length_append]
    omega
  rw [← lengthField_take _ hlong, List.take_append_of_le_length h, lengthField_take _ h]

/-- What a read takes does not depend on the bytes that arrive later. -/
theorem nextCall_extends : Extends nextCall nextCall := by
  intro b call rest s h
  obtain ⟨hfit, he⟩ := Option.ite_none_right_eq_some.mp h
  obtain ⟨rfl, rfl⟩ := Prod.mk.inj (Option.some.inj he)
  have hfield := lengthField_append (Nat.le_of_add_right_le hfit) s
  have hfits : tcpHeaderSize + max (lengthField b) 1 ≤ (b ++ s).length := by
    rw [List.length_append]
    omega
  have hpayload : payload {} (b ++ s) = payload {} b := by
    have hdrop : lengthField b ≤ (b.drop tcpHeaderSize).length := by
      rw [List.length_drop]
      omega
    rw [payload, hfield, takes_uncapped,
      List.drop_append_of_le_length (Nat.le_of_add_right_le hfit),
      List.take_append_of_le_length hdrop, payload, takes_uncapped]
  have hdrop : tcpHeaderSize + lengthField b ≤ b.length := by omega
  rw [nextCall, hfield, if_pos hfits, hpayload, List.drop_append_of_le_length hdrop]

theorem nextCall_nil : nextCall [] = none := rfl

theorem nextCall_data {b m rest : Bytes} {len : Int} (h : nextCall b = some (.handleData m len, rest))
    (hlen : 0 < len) : len = m.length := by
  obtain ⟨hfit, he⟩ := Option.ite_none_right_eq_some.mp h
  have hcall := (Prod.mk.inj (Option.some.inj he)).1
  by_cases hzero : lengthField b = 0
  · rw [if_pos hzero] at hcall
    cases hcall
  · rw [if_neg hzero] at hcall
    obtain ⟨rfl, rfl⟩ := ClientCall.handleData.inj hcall
    have hlt := lengthField_lt b
    have hfits : lengthField b < 2 ^ 31 := by
      by_contra hge
      exact absurd (toInt_neg (not_lt.mp hge) hlt) (not_lt.mpr (le_of_lt hlen))
    rw [toInt_of_fits hfits, payload_length, takes_uncapped]
    omega

theorem nextCall_frame {m : Bytes} (h1 : 1 ≤ m.length) (h2 : m.length ≤ maxMessage)
    (rest : Bytes) : nextCall (frame m ++ rest) = some (.handleData m m.length, rest) := by
  have hmax : m.length ≤ 2 ^ 31 - 1 - 5 := h2
  have hfield := lengthField_frame m rest (by omega)
  have hlen := frame_length m
  have hpayload : payload {} (frame m ++ rest) = m := by
    rw [payload, hfield, takes_uncapped, List.drop_append_of_le_length (by omega)]
    simp [frame, tcpHeaderSize]
  have hdrop : (frame m ++ rest).drop (tcpHeaderSize + m.length) = rest := by
    rw [← hlen, List.drop_left]
  rw [nextCall, hfield, if_pos (by rw [List.length_append, hlen]; omega),
    if_neg (by omega), hpayload, hdrop, toInt_of_fits (by omega)]

theorem frames_encode {ms : List Bytes} (h : Framable ms) :
    Encodes nextCall frame (fun m => .handleData m m.length) ms :=
  fun m hm rest => nextCall_frame (h m hm).1 (h m hm).2 rest

/-! A connection over any run of writes by its peer, arrivals and reads. -/

structure Receiver where
  conn : TcpIoConnection
  wire : Wire := {}
  written : Bytes := []
  calls : List ClientCall := []

/-- No read while it blocks. -/
def step (u : Receiver) : Event → Option Receiver
  | .write b => some { u with wire := u.wire.write b, written := u.written ++ b }
  | .arrive n => some { u with wire := u.wire.arrive n }
  | .read => (onReadAvailable u.conn ⟨u.wire.arrived, false⟩ {}).map fun out =>
      { u with
        conn := out.conn
        wire := { u.wire with arrived := out.stream.bytes }
        calls := u.calls ++ out.call.toList }

/-- The connection is the reader at the end of the wire. -/
structure Follows (u : Receiver) (x : Reading ClientCall) : Prop where
  live : u.conn.Live
  wire : u.wire = x.wire
  written : u.written = x.written
  calls : u.calls = x.items

theorem step_follows : Simulates step (Wires.step nextCall) (fun _ _ => True) Follows
    fun m => [m.act] := by
  intro u e v x hr _ h
  cases e with
  | write b =>
    obtain rfl := Option.some.inj h
    exact ⟨_, run_single.mpr rfl, hr.live, by rw [hr.wire], by rw [hr.written], hr.calls⟩
  | arrive n =>
    obtain rfl := Option.some.inj h
    exact ⟨_, run_single.mpr rfl, hr.live, by rw [hr.wire], hr.written, hr.calls⟩
  | read =>
    obtain ⟨out, hout, rfl⟩ := Option.map_eq_some_iff.mp h
    rw [onReadAvailable_open hr.live] at hout
    obtain ⟨⟨call, rest⟩, hcall, rfl⟩ := Option.map_eq_some_iff.mp hout
    have hread : x.wire.read nextCall = some (call, { x.wire with arrived := rest }) := by
      rw [Wire.read, ← hr.wire, hcall, Option.map_some]
    have hstep : Wires.step nextCall x .read = some
        { x with wire := { x.wire with arrived := rest }, items := x.items ++ [call] } := by
      simp only [Wires.step, hread, Option.map_some]
    refine ⟨_, run_single.mpr hstep, hr.live, ?_, hr.written, ?_⟩
    · rw [hr.wire]
    · rw [hr.calls]
      rfl

/-- Nothing is under way, and a read would block. -/
def Blocked (u : Receiver) : Prop :=
  u.wire.sent = [] ∧ onReadAvailable u.conn ⟨u.wire.arrived, false⟩ {} = none

theorem Follows.dry_iff {u : Receiver} {x : Reading ClientCall} (h : Follows u x) :
    Dry nextCall x ↔ Blocked u := by
  rw [Blocked, onReadAvailable_open h.live, h.wire, Option.map_eq_none_iff, Dry]

theorem path_follows {c : TcpIoConnection} (hc : c.Live) {ms : List (Move Receiver Event)}
    {u : Receiver} (h : Path step { conn := c } ms u) :
    ∃ x ns, Path (Wires.step nextCall) {} ns x ∧ Follows u x := by
  obtain ⟨x, hx, hr⟩ := step_follows.path h (x := {}) ⟨hc, rfl, rfl, rfl⟩ fun _ _ => trivial
  obtain ⟨ns, hp, -⟩ := path_of_run hx
  exact ⟨x, ns, hp, hr⟩

/-- Two connections to which the same bytes are written, cut and timed in any way: where one has
nothing left to read, it has asked of its client all that the other has; and where both have
nothing left, they have asked the same and hold the same unread bytes. -/
theorem segments_invisible {c d : TcpIoConnection} (hc : c.Live) (hd : d.Live)
    {ms ns : List (Move Receiver Event)} {u v : Receiver} (hu : Path step { conn := c } ms u)
    (hv : Path step { conn := d } ns v) (hsame : u.written = v.written) (hblocked : Blocked v) :
    u.calls <+: v.calls ∧
      (Blocked u → u.calls = v.calls ∧ u.wire.arrived = v.wire.arrived) := by
  obtain ⟨x, ms', hx, hux⟩ := path_follows hc hu
  obtain ⟨y, ns', hy, hvy⟩ := path_follows hd hv
  have hwritten : x.written = y.written := by rw [← hux.written, hsame, hvy.written]
  have hcuts := cuts_do_not_matter nextCall_extends hx hy hwritten (hvy.dry_iff.mpr hblocked)
  rw [← hux.calls, ← hvy.calls, hux.dry_iff, ← hux.wire, ← hvy.wire] at hcuts
  exact hcuts

theorem two_pieces_run : (run step { conn := connectedTo 4 }
    [.write (frames [[104, 105], [33]]), .arrive 7, .read, .arrive 6, .read]).any (fun u =>
      decide (u.written = frames [[104, 105], [33]] ∧ u.wire.sent = [] ∧
        u.calls.length = 2 ∧ (onReadAvailable u.conn ⟨u.wire.arrived, false⟩ {}).isNone)) = true := by
  decide +kernel

theorem three_pieces_run : (run step { conn := connectedTo 5 }
    [.write ((frames [[104, 105], [33]]).take 4), .arrive 9,
      .write ((frames [[104, 105], [33]]).drop 4), .arrive 6, .read, .arrive 6, .read]).any (fun u =>
      decide (u.written = frames [[104, 105], [33]] ∧ u.wire.sent = [] ∧
        u.calls.length = 2 ∧ (onReadAvailable u.conn ⟨u.wire.arrived, false⟩ {}).isNone)) = true := by
  decide +kernel

theorem connectedTo_live {sock : Int} (h : 0 ≤ sock) : (connectedTo sock).Live := ⟨rfl, h, rfl⟩

theorem segments_invisible_hi : ∃ ms ns u v, Path step { conn := connectedTo 4 } ms u ∧
    Path step { conn := connectedTo 5 } ns v ∧ u.calls.length = 2 ∧ u.calls = v.calls := by
  obtain ⟨u, hu, hdecide⟩ := (Option.any_eq_true _ _).mp two_pieces_run
  obtain ⟨v, hv, hdecide'⟩ := (Option.any_eq_true _ _).mp three_pieces_run
  obtain ⟨hwritten, hsent, hlen, hnone⟩ := of_decide_eq_true hdecide
  obtain ⟨hwritten', hsent', -, hnone'⟩ := of_decide_eq_true hdecide'
  obtain ⟨ms, hp, -⟩ := path_of_run hu
  obtain ⟨ns, hp', -⟩ := path_of_run hv
  have hsame := segments_invisible (connectedTo_live (by decide)) (connectedTo_live (by decide))
    hp hp' (hwritten.trans hwritten'.symm) ⟨hsent', Option.isNone_iff_eq_none.mp hnone'⟩
  exact ⟨ms, ns, u, v, hp, hp', hlen, (hsame.2 ⟨hsent, Option.isNone_iff_eq_none.mp hnone⟩).1⟩

/-- What was asked of the client and the bytes not read yet make up all that was written, and a
read that would block finds no further message in them. -/
theorem path_reads {c : TcpIoConnection} (hc : c.Live) {ms : List (Move Receiver Event)}
    {u : Receiver} (h : Path step { conn := c } ms u) :
    Reads nextCall u.written u.calls u.wire.content ∧
      (Blocked u → nextCall u.wire.content = none) := by
  obtain ⟨x, ns, hx, hr⟩ := path_follows hc h
  have hread := path_accounted nextCall_extends hx
  rw [Accounted, ← hr.written, ← hr.calls, ← hr.wire] at hread
  refine ⟨hread, fun hblocked => ?_⟩
  rw [hr.wire]
  exact (hr.dry_iff.mpr hblocked).content

/-- Where a read would block behind messages that were written as frames, all of them were handed
over. -/
theorem blocked_handed {c : TcpIoConnection} (hc : c.Live) {ms : List (Move Receiver Event)}
    {u : Receiver} (h : Path step { conn := c } ms u) {messages : List Bytes}
    (hm : Framable messages) (hwritten : u.written = frames messages) (hblocked : Blocked u) :
    u.calls = messages.map (fun m => .handleData m m.length) ∧ u.wire.content = [] := by
  obtain ⟨hread, hdry⟩ := path_reads hc h
  have hall := (frames_encode hm).reads []
  rw [List.append_nil] at hall
  rw [hwritten] at hread
  exact hread.unique hall (hdry hblocked) nextCall_nil

/-- Messages written as frames come out as they went in, however their bytes travel, and no read
blocks for ever but the one behind the last. -/
theorem frames_in_segments {c : TcpIoConnection} (hc : c.Live) {ms : List (Move Receiver Event)}
    {u : Receiver} (h : Path step { conn := c } ms u) {messages : List Bytes}
    (hm : Framable messages) (hwritten : u.written = frames messages) :
    (u.calls <+: messages.map fun m => .handleData m m.length) ∧
      (Blocked u → u.calls = messages.map (fun m => .handleData m m.length) ∧
        u.wire.arrived = []) := by
  have hread := (path_reads hc h).1
  have hall := (frames_encode hm).reads []
  rw [hwritten] at hread
  rw [List.append_nil] at hall
  refine ⟨hread.within hall nextCall_nil, fun hblocked => ?_⟩
  obtain ⟨hcalls, hrest⟩ := blocked_handed hc h hm hwritten hblocked
  refine ⟨hcalls, ?_⟩
  simpa [Wire.content, hblocked.1] using hrest

theorem frames_in_segments_hi : ∃ ms u, Path step { conn := connectedTo 4 } ms u ∧
    u.calls = [.handleData [104, 105] 2, .handleData [33] 1] := by
  obtain ⟨u, hu, hdecide⟩ := (Option.any_eq_true _ _).mp two_pieces_run
  obtain ⟨hwritten, hsent, -, hnone⟩ := of_decide_eq_true hdecide
  obtain ⟨ms, hp, -⟩ := path_of_run hu
  have hframable : Framable [[104, 105], [33]] := by
    unfold Framable
    decide
  have hread := frames_in_segments (connectedTo_live (by decide)) hp hframable hwritten
  exact ⟨ms, u, hp, (hread.2 ⟨hsent, Option.isNone_iff_eq_none.mp hnone⟩).1⟩

end DericRpc.Segments
