import DericRpc.EventLoop
import DericRpc.Framing

/-! A registered server connection while frames, the end of the stream and errors reach it:
what its client entry is handed before TCP_IO_CONNECTION_EVENT_CLOSE. -/
namespace DericRpc.Draining
open ByteString Common Connection EventLoop Framing Lts

/-- `registered` tells whether m_ioMembers has the connection, `reported` is the event of the
current batch whose turn has not come, `arrived` the messages whose frames have arrived, and
`calls` what the client entry has been passed. -/
structure Sys where
  conn : TcpIoConnection
  registered : Bool := true
  stream : Incoming := ⟨[], false⟩
  reset : Bool := false
  reported : Option Event := none
  arrived : List Bytes := []
  calls : List ClientCall := []

inductive Act where
  | arrive (m : Bytes)
  | peerClose
  | connectionError
  | report (e : Event)
  | handle (errors : RecvErrors)
  | stop

/-- RpcServiceClientEntry::stop: removeIoMember, and the connection's stop. -/
def stopEntry (s : Sys) : Sys :=
  { s with conn := (Connection.stop s.conn).conn, registered := false }

/-- handleData, or handleEvent with TCP_IO_CONNECTION_EVENT_CLOSE, which stops the entry. -/
def passCall (s : Sys) : Option ClientCall → Sys
  | none => s
  | some (.handleData pData len) => { s with calls := s.calls ++ [.handleData pData len] }
  | some .handleEvent => stopEntry { s with calls := s.calls ++ [.handleEvent] }

/-- The turn of the event in the batch. -/
def handle (s : Sys) (e : Event) (errors : RecvErrors) : Option Sys :=
  if s.registered = false then some s
  else if e.failed = true then some (passCall s (onIoError s.conn).1)
  else (onReadAvailable s.conn s.stream errors).map fun out =>
    passCall { s with conn := out.conn, stream := out.stream } out.call

/-- Whole frames arrive while the stream is open. epoll may report any event of a registered
connection. recv fails only for a connection with an error, and returns what has arrived first. -/
def step (s : Sys) : Act → Option Sys
  | .arrive m =>
    if s.stream.eof = false ∧ 1 ≤ m.length ∧ m.length < 2 ^ 32 then
      some { s with stream := ⟨s.stream.bytes ++ frame m, false⟩, arrived := s.arrived ++ [m] }
    else none
  | .peerClose => some { s with stream := ⟨s.stream.bytes, true⟩ }
  | .connectionError => some { s with stream := ⟨s.stream.bytes, true⟩, reset := true }
  | .report e =>
    if s.registered = true ∧ s.reported = none then some { s with reported := some e } else none
  | .handle errors => s.reported.bind fun e =>
      if errors = {} ∨ (s.reset = true ∧ s.stream.bytes = []) then
        handle { s with reported := none } e errors
      else none
  | .stop => some (stopEntry s)

/-- What handleData is passed for a message. -/
def delivery (m : Bytes) : ClientCall := .handleData m (toInt m.length)

/-- The step passes TCP_IO_CONNECTION_EVENT_CLOSE. -/
def Closes (m : Move Sys Act) : Prop := m.post.calls = m.pre.calls ++ [.handleEvent]

/-- Every frame that has arrived has been handed over. -/
def AllHanded (s : Sys) : Prop := s.calls = s.arrived.map delivery

/-- The step is the turn of an event with EPOLLERR, EPOLLHUP or without EPOLLIN. -/
def FailedTurn (m : Move Sys Act) : Prop :=
  ∃ errors e, m.act = .handle errors ∧ m.pre.reported = some e ∧ e.failed = true

/-- A connection that start has just registered. -/
structure Fresh (s : Sys) : Prop where
  live : s.conn.Live
  registered : s.registered = true
  stream : s.stream.bytes = []
  arrived : s.arrived = []
  calls : s.calls = []

/-- What was handed over and what is unread are what has arrived; a close comes last. -/
structure Inv (s : Sys) : Prop where
  live : s.registered = true → s.conn.Live
  whole : ∀ m ∈ s.arrived, 1 ≤ m.length ∧ m.length < 2 ^ 32
  queue : ∃ handed unread, s.arrived = handed ++ unread ∧ s.stream.bytes = frames unread ∧
    (s.calls = handed.map delivery ∨
      s.registered = false ∧ s.calls = handed.map delivery ++ [.handleEvent])

theorem Fresh.inv {s : Sys} (h : Fresh s) : Inv s where
  live _ := h.live
  whole := by simp [h.arrived]
  queue := ⟨[], [], by simp [h.arrived], by simp [h.stream, frames], .inl (by simp [h.calls])⟩

theorem Inv.calls {s : Sys} (hi : Inv s) (hr : s.registered = true) :
    ∃ handed unread, s.arrived = handed ++ unread ∧ s.stream.bytes = frames unread ∧
      s.calls = handed.map delivery := by
  obtain ⟨handed, unread, harrived, hbytes, hcalls⟩ := hi.queue
  exact ⟨handed, unread, harrived, hbytes, hcalls.resolve_right fun hgone => by simp [hr] at hgone⟩

/-- What the turn of an event may do: nothing for a connection that is gone; a close for an
event that failed; a recv error, or the close, for a stream with nothing left; or one frame. -/
inductive Turned (s t : Sys) (e : Event) : Prop
  | gone (hr : s.registered = false) (ht : t = { s with reported := none })
  | failed (hr : s.registered = true) (he : e.failed = true)
      (ht : t = stopEntry { s with reported := none, calls := s.calls ++ [.handleEvent] })
  | quiet (buffer : Bytes) (hr : s.registered = true) (he : e.failed = false)
      (hs : s.stream.bytes = [])
      (ht : t = { s with conn := { s.conn with receiveBuffer := buffer }, reported := none })
  | ended (buffer : Bytes) (hr : s.registered = true) (he : e.failed = false)
      (hs : s.stream.bytes = [])
      (ht : t = stopEntry { s with
        conn := { s.conn with receiveBuffer := buffer }
        reported := none
        calls := s.calls ++ [.handleEvent] })
  | message (buffer m : Bytes) (handed unread : List Bytes) (hr : s.registered = true)
      (he : e.failed = false) (hs : s.arrived = handed ++ m :: unread)
      (hcalls : s.calls = handed.map delivery)
      (ht : t = { s with
        conn := { s.conn with receiveBuffer := buffer }
        stream := ⟨frames unread, s.stream.eof⟩
        reported := none
        calls := s.calls ++ [delivery m] })

theorem frames_cons (m : Bytes) (ms : List Bytes) : frames (m :: ms) = frame m ++ frames ms := rfl

theorem frames_eq_nil {ms : List Bytes} : frames ms = [] ↔ ms = [] := by
  cases ms <;> simp [frames, frame]

theorem handle_gone {s : Sys} (hr : s.registered = false) (e : Event) (errors : RecvErrors) :
    handle s e errors = some s := if_pos hr

theorem handle_failed {s : Sys} {e : Event} (hlive : s.conn.Live) (hr : s.registered = true)
    (he : e.failed = true) (errors : RecvErrors) :
    handle s e errors = some (stopEntry { s with calls := s.calls ++ [.handleEvent] }) := by
  have hcall : (onIoError s.conn).1 = some .handleEvent := by simp [onIoError, hlive.2.2]
  rw [handle, if_neg (by simp [hr]), if_pos he, hcall]
  rfl

theorem handle_read {s t : Sys} {e : Event} {errors : RecvErrors} (hr : s.registered = true)
    (he : e.failed = false) (h : handle s e errors = some t) :
    ∃ out, onReadAvailable s.conn s.stream errors = some out ∧
      passCall { s with conn := out.conn, stream := out.stream } out.call = t := by
  rw [handle, if_neg (by simp [hr]), if_neg (by simp [he])] at h
  exact Option.map_eq_some_iff.mp h

theorem handle_turned {s t : Sys} {errors : RecvErrors} (hi : Inv s)
    (h : step s (.handle errors) = some t) : ∃ e, s.reported = some e ∧ Turned s t e := by
  obtain ⟨e, he, hguard⟩ := Option.bind_eq_some_iff.mp h
  refine ⟨e, he, ?_⟩
  split_ifs at hguard with herrors
  let u : Sys := { s with reported := none }
  cases hr : s.registered with
  | false => exact .gone hr (Option.some.inj ((handle_gone (s := u) hr e errors).symm.trans hguard)).symm
  | true =>
    have hlive := hi.live hr
    cases hf : e.failed with
    | true =>
      exact .failed hr hf
        (Option.some.inj ((handle_failed (s := u) hlive hr hf errors).symm.trans hguard)).symm
    | false =>
      obtain ⟨out, hout, rfl⟩ := handle_read (s := u) hr hf hguard
      obtain ⟨handed, unread, harrived, hbytes, hcalls⟩ := hi.calls hr
      cases unread with
      | nil =>
        have hnil : s.stream.bytes = [] := hbytes
        obtain ⟨hconn, hcases⟩ := onReadAvailable_cases hlive hout
        rcases hcases with ⟨-, hcall, hstream⟩ | ⟨-, -, hcall, hstream⟩ | ⟨-, -, hne, -⟩ |
          ⟨-, -, hne, -⟩
        · exact .quiet [] hr hf hnil (by rw [hcall, hstream, hconn]; rfl)
        · exact .ended [] hr hf hnil (by rw [hcall, hstream, hconn]; rfl)
        · exact absurd hnil hne
        · exact absurd hnil hne
      | cons m unread =>
        have hm := hi.whole m (by simp [harrived])
        have hnoerr : errors = {} := by
          refine herrors.resolve_right fun hreset => ?_
          exact absurd (frames_eq_nil.mp (hbytes.symm.trans hreset.2)) (by simp)
        have hread := onReadAvailable_message hlive m (frames unread) s.stream.eof hm.1 hm.2
        rw [← frames_cons, ← hbytes, ← hnoerr] at hread
        obtain rfl := Option.some.inj (hread.symm.trans hout)
        exact .message [] m handed unread hr hf harrived hcalls rfl

theorem frames_concat (ms : List Bytes) (m : Bytes) :
    frames (ms ++ [m]) = frames ms ++ frame m := by
  simp [frames]

theorem Inv.allHanded {s : Sys} (hi : Inv s) (hr : s.registered = true)
    (hs : s.stream.bytes = []) : AllHanded s := by
  obtain ⟨handed, unread, harrived, hbytes, hcalls⟩ := hi.calls hr
  have hnil : unread = [] := frames_eq_nil.mp (hbytes.symm.trans hs)
  rw [AllHanded, hcalls, harrived, hnil, List.append_nil]

/-- A close that a turn passes comes behind what was handed over. -/
theorem Inv.closed {s : Sys} (hi : Inv s) (hr : s.registered = true) (c : TcpIoConnection) :
    Inv (stopEntry { s with conn := c, reported := none, calls := s.calls ++ [.handleEvent] }) where
  live hreg := nomatch hreg
  whole := hi.whole
  queue := by
    obtain ⟨handed, unread, harrived, hbytes, hcalls⟩ := hi.calls hr
    exact ⟨handed, unread, harrived, hbytes, .inr ⟨rfl, by rw [← hcalls]; rfl⟩⟩

theorem Inv.turned {s t : Sys} {e : Event} (hi : Inv s) (h : Turned s t e) : Inv t := by
  cases h with
  | gone hr ht =>
    subst ht
    exact ⟨hi.live, hi.whole, hi.queue⟩
  | failed hr he ht =>
    subst ht
    exact hi.closed hr s.conn
  | quiet buffer hr he hs ht =>
    subst ht
    exact ⟨hi.live, hi.whole, hi.queue⟩
  | ended buffer hr he hs ht =>
    subst ht
    exact hi.closed hr _
  | message buffer m handed unread hr he hs hcalls ht =>
    subst ht
    refine ⟨hi.live, hi.whole, handed ++ [m], unread, by simp [hs], rfl, .inl ?_⟩
    simp [hcalls]

theorem inv_step {s t : Sys} {a : Act} (hi : Inv s) (h : step s a = some t) : Inv t := by
  cases a with
  | arrive m =>
    obtain ⟨⟨-, hm⟩, rfl⟩ := enabled h
    obtain ⟨handed, unread, harrived, hbytes, hcalls⟩ := hi.queue
    refine ⟨hi.live, fun x hx => ?_, handed, unread ++ [m], ?_, ?_, hcalls⟩
    · rcases List.mem_append.mp hx with hold | hnew
      · exact hi.whole x hold
      · rw [List.mem_singleton.mp hnew]
        exact hm
    · simp [harrived]
    · simp [hbytes, frames_concat]
  | peerClose =>
    obtain rfl := Option.some.inj h
    exact ⟨hi.live, hi.whole, hi.queue⟩
  | connectionError =>
    obtain rfl := Option.some.inj h
    exact ⟨hi.live, hi.whole, hi.queue⟩
  | report e =>
    obtain ⟨-, rfl⟩ := enabled h
    exact ⟨hi.live, hi.whole, hi.queue⟩
  | handle errors =>
    obtain ⟨e, -, hturned⟩ := handle_turned hi h
    exact hi.turned hturned
  | stop =>
    obtain rfl := Option.some.inj h
    obtain ⟨handed, unread, harrived, hbytes, hcalls⟩ := hi.queue
    exact ⟨nofun, hi.whole, handed, unread, harrived, hbytes, hcalls.imp_right fun hgone => ⟨rfl, hgone.2⟩⟩

/-- A close is passed by the turn of a failed event, or when everything was handed over. -/
theorem Turned.closes {s t : Sys} {e : Event} (h : Turned s t e) (hi : Inv s)
    (hclose : t.calls = s.calls ++ [.handleEvent]) : e.failed = true ∨ AllHanded s := by
  cases h with
  | gone hr ht =>
    subst ht
    simp at hclose
  | failed hr he ht => exact .inl he
  | quiet buffer hr he hs ht =>
    subst ht
    simp at hclose
  | ended buffer hr he hs ht => exact .inr (hi.allHanded hr hs)
  | message buffer m handed unread hr he hs hcalls ht =>
    subst ht
    simp [delivery] at hclose

theorem Turned.failed_closes {s t : Sys} {e : Event} (h : Turned s t e) (he : e.failed = true)
    (hr : s.registered = true) :
    t = stopEntry { s with reported := none, calls := s.calls ++ [.handleEvent] } := by
  cases h with
  | gone hr' => cases hr.symm.trans hr'
  | failed _ _ ht => exact ht
  | quiet _ _ he' => cases he.symm.trans he'
  | ended _ _ he' => cases he.symm.trans he'
  | message _ _ _ _ _ he' => cases he.symm.trans he'

theorem step_closes {s t : Sys} {a : Act} (hi : Inv s) (h : step s a = some t)
    (hclose : Closes ⟨s, a, t⟩) : FailedTurn ⟨s, a, t⟩ ∨ AllHanded s := by
  cases a with
  | arrive m =>
    obtain ⟨-, rfl⟩ := enabled h
    simp [Closes] at hclose
  | peerClose =>
    obtain rfl := Option.some.inj h
    simp [Closes] at hclose
  | connectionError =>
    obtain rfl := Option.some.inj h
    simp [Closes] at hclose
  | report e =>
    obtain ⟨-, rfl⟩ := enabled h
    simp [Closes] at hclose
  | handle errors =>
    obtain ⟨e, he, hturned⟩ := handle_turned hi h
    exact (hturned.closes hi hclose).imp_left fun hf => ⟨errors, e, rfl, he, hf⟩
  | stop =>
    obtain rfl := Option.some.inj h
    simp [Closes, stopEntry] at hclose

theorem step_failedTurn {s t : Sys} {a : Act} (hi : Inv s) (h : step s a = some t)
    (hf : FailedTurn ⟨s, a, t⟩) (hr : s.registered = true) :
    Closes ⟨s, a, t⟩ ∧ t.registered = false ∧ t.stream = s.stream := by
  obtain ⟨errors, e, rfl, he, hfailed⟩ := hf
  obtain ⟨e', he', hturned⟩ := handle_turned hi h
  obtain rfl := Option.some.inj (he.symm.trans he')
  rw [hturned.failed_closes hfailed hr]
  exact ⟨rfl, rfl, rfl⟩

/-- In every run what was handed over is what arrived first, in order, the rest is unread, and
nothing follows a close. A close finds every frame handed over, unless it is passed for a failed
event, which reads nothing. -/
theorem frames_before_close {s t : Sys} {ms : List (Move Sys Act)} (hs : Fresh s)
    (h : Path step s ms t) :
    (∃ handed unread, t.arrived = handed ++ unread ∧ t.stream.bytes = frames unread ∧
      (t.calls = handed.map delivery ∨ t.calls = handed.map delivery ++ [.handleEvent])) ∧
    ∀ m ∈ ms, (Closes m → FailedTurn m ∨ AllHanded m.pre) ∧
      (FailedTurn m → m.pre.registered = true →
        Closes m ∧ m.post.registered = false ∧ m.post.stream = m.pre.stream) := by
  have hinv : ∀ u a v, Inv u → step u a = some v → Inv v := fun _ _ _ hu hv => inv_step hu hv
  refine ⟨?_, fun m hm => ?_⟩
  · obtain ⟨handed, unread, harrived, hbytes, hcalls⟩ := (h.invariant hs.inv hinv).queue
    exact ⟨handed, unread, harrived, hbytes, hcalls.imp_right And.right⟩
  · obtain ⟨pre, -, -, hpre, hstep⟩ := h.split hm
    have hi := hpre.invariant hs.inv hinv
    exact ⟨fun hclose => step_closes hi hstep hclose, fun hf hr => step_failedTurn hi hstep hf hr⟩

/-- An accepted connection over socket 5, with epoll events of it. -/
def accepted : Sys := { conn := ⟨.started, [], [], 5, .server, true⟩ }

def readable : Event := { fd := 5, epollin := true }
def hungUp : Event := { fd := 5, epollin := true, epollhup := true }

theorem accepted_fresh : Fresh accepted := ⟨⟨rfl, by decide, rfl⟩, rfl, rfl, rfl, rfl⟩

theorem frames_before_close_hi : ∃ ms t, Path step accepted ms t ∧
    t.calls = [delivery [104, 105], .handleEvent] ∧
    (∃ handed unread, t.arrived = handed ++ unread ∧ t.stream.bytes = frames unread ∧
      (t.calls = handed.map delivery ∨ t.calls = handed.map delivery ++ [.handleEvent])) ∧
    ∀ m ∈ ms, (Closes m → FailedTurn m ∨ AllHanded m.pre) ∧
      (FailedTurn m → m.pre.registered = true →
        Closes m ∧ m.post.registered = false ∧ m.post.stream = m.pre.stream) := by
  obtain ⟨t, hrun, hcalls⟩ : ∃ t, run step accepted [.arrive [104, 105], .peerClose,
      .report readable, .handle {}, .report readable, .handle {}] = some t ∧
      t.calls = [delivery [104, 105], .handleEvent] := ⟨_, rfl, rfl⟩
  obtain ⟨ms, hp, -⟩ := path_of_run hrun
  exact ⟨ms, t, hp, hcalls, frames_before_close accepted_fresh hp⟩

/-- A frame has arrived when EPOLLIN and EPOLLHUP are reported, and it is never handed over. -/
theorem frame_dropped_at_close :
    ¬ ∀ (s t : Sys) (ms : List (Move Sys Act)), Fresh s → Path step s ms t →
      ∀ m ∈ ms, Closes m → AllHanded m.pre := by
  intro h
  obtain ⟨u, hrun, hu⟩ : ∃ u, run step accepted [.arrive [104, 105], .connectionError,
      .report hungUp] = some u ∧ u.arrived = [[104, 105]] ∧ u.calls = [] ∧
      step u (.handle {}) = some (stopEntry { u with reported := none, calls := [.handleEvent] }) :=
    ⟨_, rfl, rfl, rfl, rfl⟩
  obtain ⟨ms, hp, -⟩ := path_of_run hrun
  have hall := h _ _ _ accepted_fresh (hp.snoc hu.2.2)
    ⟨u, .handle {}, stopEntry { u with reported := none, calls := [.handleEvent] }⟩ (by simp)
    (by simp [Closes, stopEntry, hu.2.1])
  rw [AllHanded, hu.1, hu.2.1] at hall
  cases hall

end DericRpc.Draining
