import DericRpc.ConnectionLoss
import DericRpc.Lengths
import DericRpc.Remote
import DericRpc.Segments

/-! The whole system down to its bytes: the client entries of any number of processes and the
service, each at its end of a connection that carries frames in pieces of any size, and peers
that write bytes of their own. One thread of each process does all its reads. The callers of a
process take turns in sending, and a send that does not fail takes all it is given. -/
namespace DericRpc.Network
open ByteString Codec Common Serial Functions Service Connection Framing Lengths Segments SyncCall
open Lts Simulation Exchange Wires Remote
variable {P : MsgPack} {W C N : Type}

/-- `impl` is the client's end of a connection and `accepted` the service's, none once it was
dropped. `serving` and `reading` tell on which connection the IO thread of the service and that
of a process are blocked inside a read. `past` is a record and steers nothing. -/
structure Sys (P : MsgPack) (W C N : Type) where
  service : RpcServiceEntry P W
  world : W
  past : List (Event C (Change P W) Bytes) := []
  clients : Clients P C N := {}
  impl : C → RpcClientImpl
  accepted : C → Option TcpIoConnection
  up : C → Wire := fun _ => {}
  down : C → Wire := fun _ => {}
  serving : Option C := none
  reading : N → Option C := fun _ => none

/-- `fails` tells whether send fails; otherwise it takes all it is given. -/
inductive Act (P : MsgPack) (W C : Type) where
  | invoke (c : C) (call : Call P) (sync fails : Bool)
  | caller (c : C) (a : Waiting.Act)
  | change (l : Change P W)
  | arriveUp (c : C) (n : Nat)
  | arriveDown (c : C) (n : Nat)
  | serve (c : C)
  | receive (c : C)
  | write (c : C) (b : Bytes)

variable [DecidableEq C] [DecidableEq N]

/-- Taking the id, filling m_sendBuffer and sending are one step. The source has no mutex there:
the runs of this system are those in which the callers of a process take turns. -/
def Sys.invoke (process : C → N) (u : Sys P W C N) (c : C) (call : Call P) (sync fails : Bool) :
    Option (Sys P W C N) :=
  ((u.impl c).sendMsg (call.command (u.clients.index (process c) + 1))
    (if fails then fun _ => none else sendsAll)).bind fun (impl, written, res) =>
      (u.clients.invoke process c call sync (decide (0 ≤ res))).map fun clients =>
        { u with
          clients := clients
          impl := Function.update u.impl c impl
          up := Function.update u.up c ((u.up c).write written) }

omit [DecidableEq N] in
/-- The service's thread takes what has arrived on a connection. Where it blocks it stays. -/
def Sys.serve (u : Sys P W C N) (c : C) : Option (Sys P W C N) :=
  if (u.serving = none ∨ u.serving = some c) ∧ (u.up c).arrived ≠ [] then
    (u.accepted c).bind fun conn =>
      match onReadAvailable conn ⟨(u.up c).arrived, false⟩ {} with
      | none => some { u with serving := some c }
      | some out =>
        let u := { u with
          up := Function.update u.up c { u.up c with arrived := out.stream.bytes }
          serving := none }
        match out.call with
        | none => some { u with accepted := Function.update u.accepted c (some out.conn) }
        | some .handleEvent => some { u with accepted := Function.update u.accepted c none }
        | some (.handleData pData len) =>
          -- msgpack would be given a negative length as a huge one
          if len ≤ 0 then none
          else
            (RpcServiceClientEntry.handleData ⟨some u.service, some out.conn⟩
              (pData.take len.toNat) u.world sendsAll).map fun r =>
                { u with
                  world := r.world
                  past := u.past ++ [.handled c (pData.take len.toNat)]
                  accepted := Function.update u.accepted c r.entry.ioConnection
                  down := Function.update u.down c ((u.down c).write r.written) }
  else none

/-- The thread of a client's process does the same, and hands a message to the client's entry. -/
def Sys.receive (process : C → N) (u : Sys P W C N) (c : C) : Option (Sys P W C N) :=
  if (u.reading (process c) = none ∨ u.reading (process c) = some c) ∧ (u.down c).arrived ≠ [] then
    (u.impl c).ioConnection.bind fun conn =>
      match onReadAvailable conn ⟨(u.down c).arrived, false⟩ {} with
      | none => some { u with reading := Function.update u.reading (process c) (some c) }
      | some out =>
        let u := { u with
          down := Function.update u.down c { u.down c with arrived := out.stream.bytes }
          reading := Function.update u.reading (process c) none
          impl := Function.update u.impl c
            ⟨if out.call = some .handleEvent then none else some out.conn⟩ }
        match ConnectionLoss.messageOf out.call with
        | none => some u
        | some msg => (u.clients.deliver c msg).map fun clients => { u with clients := clients }
  else none

/-- `foreign` marks the connections of the other peers. -/
def step (process : C → N) (foreign : C → Bool) (u : Sys P W C N) :
    Act P W C → Option (Sys P W C N)
  | .invoke c call sync fails => if foreign c then none else u.invoke process c call sync fails
  | .caller c a =>
    if foreign c = false ∧ isCaller a = true then
      (u.clients.act c [a]).map fun clients => { u with clients := clients }
    else none
  | .change l => some { u with service := l.apply u.service, past := u.past ++ [.change l] }
  | .arriveUp c n => some { u with up := Function.update u.up c ((u.up c).arrive n) }
  | .arriveDown c n => some { u with down := Function.update u.down c ((u.down c).arrive n) }
  | .serve c => u.serve c
  | .receive c => if foreign c then none else u.receive process c
  | .write c b =>
    if foreign c then some { u with up := Function.update u.up c ((u.up c).write b) } else none

variable {process : C → N} {foreign : C → Bool} {u v : Sys P W C N} {a : Act P W C} {c : C}

/-- A result string that fits goes out as one frame, an empty one not at all. -/
theorem entry_handleData {s : RpcServiceEntry P W} {conn : TcpIoConnection} (hc : Started conn)
    (m : Bytes) (w : W) (hfit : (handleData s m [] w).resultString.length ≤ maxMessage) :
    ∃ buffer res, RpcServiceClientEntry.handleData ⟨some s, some conn⟩ m w sendsAll =
      some ⟨⟨some s, some { conn with sendBuffer := buffer }⟩,
        frames ((server P W).handle (s, w) m).2.toList, res, ((server P W).handle (s, w) m).1.2,
        (handleData s m [] w).entered⟩ := by
  have hmax : (handleData s m [] w).resultString.length ≤ 2 ^ 31 - 1 - 5 := hfit
  have hlen : toInt (handleData s m [] w).resultString.length =
      (handleData s m [] w).resultString.length := toInt_of_fits (by omega)
  by_cases hnil : (handleData s m [] w).resultString = []
  · refine ⟨conn.sendBuffer, (handleData s m [] w).res, ?_⟩
    have hzero : toInt (handleData s m [] w).resultString.length = 0 := by
      rw [hlen, hnil]
      rfl
    simp only [RpcServiceClientEntry.handleData, hzero, if_true, server, if_pos hnil]
    rfl
  · refine ⟨frame (handleData s m [] w).resultString,
      tcpHeaderSize + (handleData s m [] w).resultString.length, ?_⟩
    have hpos : 1 ≤ (handleData s m [] w).resultString.length := List.length_pos_iff.mpr hnil
    have hne : ¬((handleData s m [] w).resultString.length : Int) = 0 := by omega
    simp only [RpcServiceClientEntry.handleData, hlen, hne, if_false,
      RpcServiceClientEntry.sendData, sendData_frame conn _ hc hpos hfit, Option.map_some, server,
      if_neg hnil]
    simp [frames]

theorem next_message {w : Wire} {ms : List Bytes} {call : ClientCall} {rest : Bytes}
    (hc : w.content = frames ms) (hm : Framable ms) (h : nextCall w.arrived = some (call, rest)) :
    ∃ m ms', ms = m :: ms' ∧ call = .handleData m m.length ∧
      Wire.content { w with arrived := rest } = frames ms' := by
  have hread : w.read nextCall = some (call, { w with arrived := rest }) := by
    rw [Wire.read, h, Option.map_some]
  exact read_message nextCall_extends hread hc (frames_encode hm) nextCall_nil

/-- The bytes of a state are those of the messages that wait in the state above it: what the
clients hold and the service has done is the same in both. -/
structure Refines (foreign : C → Bool) (u : Sys P W C N) (x : State P W C N) : Prop where
  server : x.exchange.server = (u.service, u.world)
  past : x.exchange.past = u.past
  clients : x.clients = u.clients
  impl : ∀ c, foreign c = false → ∃ conn, (u.impl c).ioConnection = some conn ∧ conn.Live
  accepted : ∀ c, foreign c = false → u.accepted c ≠ none
  live : ∀ c conn, u.accepted c = some conn → conn.Live
  up : ∀ c, foreign c = false → (u.up c).content = frames (x.exchange.requests c)
  down : ∀ c, (u.down c).content = frames (x.exchange.replies c)
  commands : ∀ c, Framable (x.exchange.requests c)
  replies : ∀ c, Framable (x.exchange.replies c)
  others : ∀ c, foreign c = true → x.exchange.requests c = []

/-- The message that a read of what has arrived takes. -/
def pending (w : Wire) : Option Bytes :=
  match nextCall w.arrived with
  | some (.handleData m _, _) => some m
  | _ => none

/-- Commands and replies are no longer than a frame can carry. -/
def Fits (process : C → N) (u : Sys P W C N) : Act P W C → Prop
  | .invoke c call _ _ =>
    (call.command (u.clients.index (process c) + 1)).length ≤ maxMessage
  | .serve c => ∀ m ∈ pending (u.up c),
      (handleData u.service m [] u.world).resultString.length ≤ maxMessage
  | _ => True

/-- The steps above that a step below makes: a whole read or none. -/
def acts (foreign : C → Bool) (m : Move (Sys P W C N) (Act P W C)) : List (Remote.Act P W C) :=
  match m.act with
  | .invoke c call sync fails => [.invoke c call sync (!fails)]
  | .caller c a => [.caller c a]
  | .change l => [.change l]
  | .serve c =>
    match pending (m.pre.up c) with
    | some data => if foreign c then [.put c data, .handle c] else [.handle c]
    | none => []
  | .receive c => if (nextCall (m.pre.down c).arrived).isSome then [.receive c] else []
  | _ => []

omit [DecidableEq C] [DecidableEq N] in
theorem command_pos (call : Call P) (k : Int32) : 1 ≤ (call.command k).length := by
  have h := List.length_pos_iff.mpr (header_ne_nil P .command call.func k)
  rw [Call.command, message_eq, List.length_append]
  omega

omit [DecidableEq C] [DecidableEq N] in
theorem sendMsg_frame {impl : RpcClientImpl} {conn : TcpIoConnection}
    (himpl : impl.ioConnection = some conn) (hc : conn.Live) {m : Bytes} (h1 : 1 ≤ m.length)
    (h2 : m.length ≤ maxMessage) (fails : Bool) :
    ∃ conn' res, conn'.Live ∧ (0 ≤ res ↔ fails = false) ∧
      impl.sendMsg m (if fails then fun _ => none else sendsAll) =
        some (⟨some conn'⟩, frames (if fails then [] else [m]), res) := by
  have hmax : m.length ≤ 2 ^ 31 - 1 - 5 := h2
  have hlen : toInt m.length = m.length := toInt_of_fits (by omega)
  have hstarted : Started conn := ⟨hc.1, hc.2.1⟩
  cases fails with
  | false =>
    refine ⟨{ conn with sendBuffer := frame m }, tcpHeaderSize + m.length, hc, by
      simp only [tcpHeaderSize, iff_true]; omega, ?_⟩
    simp only [RpcClientImpl.sendMsg, himpl, hlen, Bool.false_eq_true, if_false,
      sendData_frame conn m hstarted h1 h2, Option.map_some]
    simp [frames]
  | true =>
    have hfit : tcpHeaderSize + (m.length : Int) ≤ intMax := by
      simp only [intMax, tcpHeaderSize]
      omega
    refine ⟨{ conn with sendBuffer := frame m }, -1, hc, by decide, ?_⟩
    simp only [RpcClientImpl.sendMsg, himpl, hlen, if_true,
      sendData_message conn (fun _ => none) hstarted (by omega) hfit le_rfl, Option.map_some]
    simp [frames]

omit [DecidableEq N] in
theorem frames_append (ms ms' : List Bytes) : frames (ms ++ ms') = frames ms ++ frames ms' :=
  List.flatMap_append

omit [DecidableEq N] in
theorem update_frames {w : C → Wire} {q : C → List Bytes} (new : List Bytes) {d : C}
    (h : (w d).content = frames (q d)) :
    (Function.update w c ((w c).write (frames new)) d).content = frames (push q c new d) := by
  by_cases hdc : d = c
  · subst hdc
    rw [Function.update_self, write_content, push_self, frames_append, h]
  · rw [Function.update_of_ne hdc, push_of_ne _ _ hdc, h]

theorem push_framable {q : C → List Bytes} {new : List Bytes} (h : ∀ d, Framable (q d))
    (hnew : Framable new) (c : C) : ∀ d, Framable (push q c new d) := by
  intro d m hm
  by_cases hd : d = c
  · subst hd
    rw [push_self] at hm
    exact (List.mem_append.mp hm).elim (h d m) (hnew m)
  · rw [push_of_ne _ _ hd] at hm
    exact h d m hm

theorem invoke_refines {x : State P W C N} (hx : Refines foreign u x) {call : Call P}
    {sync fails : Bool} (hc : foreign c = false)
    (hfit : (call.command (u.clients.index (process c) + 1)).length ≤ maxMessage)
    (h : u.invoke process c call sync fails = some v) :
    ∃ y, Remote.step process foreign x (.invoke c call sync (!fails)) = some y ∧
      Refines foreign v y := by
  obtain ⟨conn, himpl, hlive⟩ := hx.impl c hc
  obtain ⟨conn', res, hlive', hres, hsend⟩ := sendMsg_frame himpl hlive (command_pos call _) hfit
    fails
  rw [Sys.invoke, hsend, Option.bind_some] at h
  obtain ⟨clients, hclients, rfl⟩ := Option.map_eq_some_iff.mp h
  have hsent : decide (0 ≤ res) = !fails := by cases fails <;> simp_all
  rw [hsent, ← hx.clients] at hclients
  have himpl' (d : C) (hd : foreign d = false) :
      ∃ conn, (Function.update u.impl c ⟨some conn'⟩ d).ioConnection = some conn ∧ conn.Live := by
    by_cases hdc : d = c
    · subst hdc
      rw [Function.update_self]
      exact ⟨conn', rfl, hlive'⟩
    · rw [Function.update_of_ne hdc]
      exact hx.impl d hd
  cases fails with
  | true =>
    have hstep : Remote.step process foreign x (.invoke c call sync false) =
        some ⟨x.exchange, clients⟩ := by
      simp only [Remote.step, hc, Bool.false_eq_true, if_false, State.go]
      rw [show (!true) = false from rfl] at hclients
      rw [hclients]
      rfl
    refine ⟨_, hstep, { hx with clients := rfl, impl := himpl', up := fun d hd => ?_ }⟩
    exact (update_frames [] (hx.up d hd)).trans (by rw [push_nil])
  | false =>
    have hstep : Remote.step process foreign x (.invoke c call sync true) = some ⟨{ x.exchange with
        requests := push x.exchange.requests c [call.command (u.clients.index (process c) + 1)]
        issued := push x.exchange.issued c [call.command (u.clients.index (process c) + 1)] },
        clients⟩ := by
      simp only [Remote.step, hc, Bool.false_eq_true, if_false, if_true, State.go]
      rw [show (!false) = true from rfl] at hclients
      rw [hclients, hx.clients]
      rfl
    refine ⟨_, hstep, ?_⟩
    have hframable : Framable [call.command (u.clients.index (process c) + 1)] := by
      intro m hm
      rw [List.mem_singleton.mp hm]
      exact ⟨command_pos call _, hfit⟩
    refine { hx with
      clients := rfl
      impl := himpl'
      up := fun d hd => update_frames _ (hx.up d hd)
      commands := push_framable hx.commands hframable c
      others := fun d hd => ?_ }
    have hdc : d ≠ c := by
      rintro rfl
      rw [hc] at hd
      cases hd
    exact (push_of_ne _ _ hdc).trans (hx.others d hd)

/-- The state after the service has taken message `m` of client `c` off its connection. -/
def Sys.served (u : Sys P W C N) (c : C) (m rest : Bytes) (conn : TcpIoConnection) :
    Sys P W C N :=
  let out := (server P W).handle (u.service, u.world) m
  { u with
    world := out.1.2
    past := u.past ++ [.handled c m]
    accepted := Function.update u.accepted c (some conn)
    up := Function.update u.up c { u.up c with arrived := rest }
    down := Function.update u.down c ((u.down c).write (frames out.2.toList))
    serving := none }

omit [DecidableEq N] in
/-- What a read of the service does: it blocks, takes the close of the connection, or takes one
message and sends what it is answered. -/
theorem serve_cases (hlive : ∀ d conn, u.accepted d = some conn → conn.Live)
    (hfit : ∀ m ∈ pending (u.up c),
      (handleData u.service m [] u.world).resultString.length ≤ maxMessage)
    (h : u.serve c = some v) :
    (nextCall (u.up c).arrived = none ∧ v = { u with serving := some c }) ∨
    (∃ rest, nextCall (u.up c).arrived = some (.handleEvent, rest) ∧ v = { u with
      up := Function.update u.up c { u.up c with arrived := rest }
      serving := none
      accepted := Function.update u.accepted c none }) ∨
    ∃ m rest conn, nextCall (u.up c).arrived = some (.handleData m m.length, rest) ∧ conn.Live ∧
      v = u.served c m rest conn := by
  obtain ⟨-, h⟩ := Option.ite_none_right_eq_some.mp h
  obtain ⟨conn, hconn, h⟩ := Option.bind_eq_some_iff.mp h
  have hc := hlive c conn hconn
  rw [onReadAvailable_open hc] at h
  cases hnext : nextCall (u.up c).arrived with
  | none =>
    simp only [hnext, Option.map_none] at h
    exact .inl ⟨rfl, (Option.some.inj h).symm⟩
  | some out =>
    obtain ⟨call, rest⟩ := out
    simp only [hnext, Option.map_some] at h
    cases call with
    | handleEvent => exact .inr (.inl ⟨rest, rfl, (Option.some.inj h).symm⟩)
    | handleData m len =>
      obtain ⟨hpos, h⟩ := Option.ite_none_left_eq_some.mp h
      obtain rfl := nextCall_data hnext (not_le.mp hpos)
      obtain ⟨r, hr, rfl⟩ := Option.map_eq_some_iff.mp h
      rw [Int.toNat_natCast, List.take_length] at hr ⊢
      have hstarted : Started { conn with receiveBuffer := [] } := ⟨hc.1, hc.2.1⟩
      obtain ⟨buffer, res, hentry⟩ := entry_handleData hstarted m u.world
        (hfit m (by simp [pending, hnext]))
      obtain rfl := Option.some.inj (hr.symm.trans hentry)
      exact .inr (.inr ⟨m, rest, { conn with receiveBuffer := [], sendBuffer := buffer }, rfl, hc,
        rfl⟩)

omit [DecidableEq N] in
theorem served_refines {x : State P W C N} (hx : Refines foreign u x) {m rest : Bytes}
    {conn : TcpIoConnection} (hc : conn.Live)
    (hfit : (handleData u.service m [] u.world).resultString.length ≤ maxMessage)
    {y : Exchange.State C (RpcServiceEntry P W × W) (Change P W) Bytes Bytes}
    (hserver : y.server = ((server P W).handle (u.service, u.world) m).1)
    (hpast : y.past = u.past ++ [.handled c m])
    (hreplies : y.replies = push x.exchange.replies c
      ((server P W).handle (u.service, u.world) m).2.toList)
    (hother : ∀ d, d ≠ c → y.requests d = x.exchange.requests d)
    (hrest : foreign c = false → Wire.content { u.up c with arrived := rest } =
      frames (y.requests c))
    (hsub : y.requests c ⊆ x.exchange.requests c) (hforeign : foreign c = true → y.requests c = []) :
    Refines foreign (u.served c m rest conn) ⟨y, x.clients⟩ := by
  have hmsgs : Framable ((server P W).handle (u.service, u.world) m).2.toList := by
    intro r hr
    obtain ⟨rfl, hne⟩ := handle_reply (Option.mem_toList.mp hr)
    exact ⟨List.length_pos_iff.mpr hne, hfit⟩
  have hdown : ∀ d, (Function.update u.down c ((u.down c).write
      (frames ((server P W).handle (u.service, u.world) m).2.toList)) d).content =
        frames (y.replies d) := by
    intro d
    rw [hreplies]
    exact update_frames _ (hx.down d)
  refine ⟨hserver, hpast, hx.clients, hx.impl, fun d hd => ?_, fun d conn' hd => ?_,
    fun d hd => ?_, hdown, fun d => ?_, ?_, fun d hd => ?_⟩
  · change Function.update u.accepted c (some conn) d ≠ none
    by_cases hdc : d = c
    · subst hdc
      rw [Function.update_self]
      exact Option.some_ne_none _
    · rw [Function.update_of_ne hdc]
      exact hx.accepted d hd
  · change Function.update u.accepted c (some conn) d = some conn' at hd
    by_cases hdc : d = c
    · subst hdc
      rw [Function.update_self] at hd
      exact Option.some.inj hd ▸ hc
    · rw [Function.update_of_ne hdc] at hd
      exact hx.live d conn' hd
  · change (Function.update u.up c { u.up c with arrived := rest } d).content = _
    by_cases hdc : d = c
    · subst hdc
      rw [Function.update_self]
      exact hrest hd
    · rw [Function.update_of_ne hdc]
      exact (hx.up d hd).trans (congrArg frames (hother d hdc).symm)
  · by_cases hdc : d = c
    · subst hdc
      exact fun r hr => hx.commands d r (hsub hr)
    · exact (hother d hdc).symm ▸ hx.commands d
  · exact fun d => hreplies ▸ push_framable hx.replies hmsgs c d
  · by_cases hdc : d = c
    · subst hdc
      exact hforeign hd
    · exact (hother d hdc).trans (hx.others d hd)

/-- A read of the service is none of its steps above, the handling of a command that waits, or
that of a message that a peer has put. -/
theorem serve_refines {x : State P W C N} (hx : Refines foreign u x)
    (hfit : ∀ m ∈ pending (u.up c),
      (handleData u.service m [] u.world).resultString.length ≤ maxMessage)
    (h : u.serve c = some v) :
    ∃ y, run (Remote.step process foreign) x (acts foreign ⟨u, .serve c, v⟩) = some y ∧
      Refines foreign v y := by
  obtain ⟨hnext, rfl⟩ | ⟨rest, hnext, rfl⟩ | ⟨m, rest, conn, hnext, hc, rfl⟩ :=
    serve_cases hx.live hfit h
  · refine ⟨x, ?_, { hx with }⟩
    simp only [acts, pending, hnext]
    rfl
  · have hf : foreign c = true := by
      by_contra hne
      obtain ⟨_, _, -, hcall, -⟩ :=
        next_message (hx.up c (Bool.not_eq_true _ ▸ hne)) (hx.commands c) hnext
      cases hcall
    have hne (d : C) (hd : foreign d = false) : d ≠ c := by
      rintro rfl
      rw [hf] at hd
      cases hd
    refine ⟨x, ?_, { hx with accepted := ?_, live := ?_, up := ?_ }⟩
    · simp only [acts, pending, hnext]
      rfl
    · intro d hd
      dsimp only
      rw [Function.update_of_ne (hne d hd)]
      exact hx.accepted d hd
    · intro d conn hd
      dsimp only at hd
      by_cases hdc : d = c
      · subst hdc
        rw [Function.update_self] at hd
        cases hd
      · rw [Function.update_of_ne hdc] at hd
        exact hx.live d conn hd
    · intro d hd
      dsimp only
      rw [Function.update_of_ne (hne d hd)]
      exact hx.up d hd
  · have hmessage : pending (u.up c) = some m := by simp only [pending, hnext]
    cases hf : foreign c with
    | true =>
      have hrun : run (Remote.step process foreign) x [.put c m, .handle c] =
          some ⟨{ x.exchange with
            server := ((server P W).handle x.exchange.server m).1
            past := x.exchange.past ++ [.handled c m]
            requests := Function.update (push x.exchange.requests c [m]) c []
            replies := push x.exchange.replies c ((server P W).handle x.exchange.server m).2.toList
            issued := push x.exchange.issued c [m] }, x.clients⟩ := by
        simp [run, Remote.step, hf, State.go, Exchange.step, hx.others c hf]
      simp only [acts, hmessage, hf, if_true]
      refine ⟨_, hrun, served_refines hx hc (hfit m hmessage) ?_ ?_ ?_ ?_ ?_ ?_ ?_⟩
      · rw [hx.server]
      · rw [hx.past]
      · rw [hx.server]
      · exact fun d hd => (Function.update_of_ne hd ..).trans (push_of_ne _ _ hd)
      · exact fun hown => by rw [hf] at hown; cases hown
      · intro r hr
        change r ∈ Function.update (push x.exchange.requests c [m]) c [] c at hr
        rw [Function.update_self] at hr
        cases hr
      · exact fun _ => Function.update_self ..
    | false =>
      obtain ⟨m', ms, hq, hcall, hrest⟩ := next_message (hx.up c hf) (hx.commands c) hnext
      obtain ⟨rfl, -⟩ := ClientCall.handleData.inj hcall
      have hself : Function.update x.exchange.requests c ms c = ms := Function.update_self ..
      have hrun : run (Remote.step process foreign) x [.handle c] =
          some ⟨{ x.exchange with
            server := ((server P W).handle x.exchange.server m).1
            past := x.exchange.past ++ [.handled c m]
            requests := Function.update x.exchange.requests c ms
            replies := push x.exchange.replies c
              ((server P W).handle x.exchange.server m).2.toList }, x.clients⟩ := by
        simp [run, Remote.step, State.go, Exchange.step, hq]
      simp only [acts, hmessage, hf, Bool.false_eq_true, if_false]
      refine ⟨_, hrun, served_refines hx hc (hfit m hmessage) ?_ ?_ ?_ ?_ ?_ ?_ ?_⟩
      · rw [hx.server]
      · rw [hx.past]
      · rw [hx.server]
      · exact fun d hd => Function.update_of_ne hd ..
      · exact fun _ => hrest.trans (congrArg frames hself.symm)
      · intro r hr
        change r ∈ Function.update x.exchange.requests c ms c at hr
        rw [hself] at hr
        exact hq ▸ List.mem_cons_of_mem m hr
      · exact fun hforeign => by rw [hf] at hforeign; cases hforeign

theorem receive_cases {x : State P W C N} (hx : Refines foreign u x) (hc : foreign c = false)
    (h : u.receive process c = some v) :
    (nextCall (u.down c).arrived = none ∧
      v = { u with reading := Function.update u.reading (process c) (some c) }) ∨
    ∃ m ms rest conn clients, nextCall (u.down c).arrived = some (.handleData m m.length, rest) ∧
      x.exchange.replies c = m :: ms ∧ Wire.content { u.down c with arrived := rest } = frames ms ∧
      conn.Live ∧ u.clients.deliver c m = some clients ∧ v = { u with
        clients := clients
        down := Function.update u.down c { u.down c with arrived := rest }
        reading := Function.update u.reading (process c) none
        impl := Function.update u.impl c ⟨some conn⟩ } := by
  obtain ⟨-, h⟩ := Option.ite_none_right_eq_some.mp h
  obtain ⟨conn, himpl, hlive⟩ := hx.impl c hc
  rw [himpl, Option.bind_some, onReadAvailable_open hlive] at h
  cases hnext : nextCall (u.down c).arrived with
  | none =>
    simp only [hnext, Option.map_none] at h
    exact .inl ⟨rfl, (Option.some.inj h).symm⟩
  | some out =>
    obtain ⟨call, rest⟩ := out
    obtain ⟨m, ms, hr, rfl, hrest⟩ := next_message (hx.down c) (hx.replies c) hnext
    have hpos : 1 ≤ m.length := (hx.replies c m (hr ▸ List.mem_cons_self)).1
    have hmessage : ConnectionLoss.messageOf (some (.handleData m m.length)) = some m := by
      rw [ConnectionLoss.messageOf, if_neg (by omega), Int.toNat_natCast, List.take_length]
    simp only [hnext, Option.map_some, hmessage] at h
    obtain ⟨clients, hclients, rfl⟩ := Option.map_eq_some_iff.mp h
    exact .inr ⟨m, ms, rest, { conn with receiveBuffer := [] }, clients, rfl, hr, hrest, hlive,
      hclients, rfl⟩

theorem receive_refines {x : State P W C N} (hx : Refines foreign u x) (hc : foreign c = false)
    (h : u.receive process c = some v) :
    ∃ y, run (Remote.step process foreign) x (acts foreign ⟨u, .receive c, v⟩) = some y ∧
      Refines foreign v y := by
  obtain ⟨hnext, rfl⟩ | ⟨m, ms, rest, conn, clients, hnext, hr, hrest, hlive, hclients, rfl⟩ :=
    receive_cases hx hc h
  · refine ⟨x, ?_, { hx with }⟩
    simp only [acts, hnext]
    rfl
  · have hrun : run (Remote.step process foreign) x [.receive c] = some ⟨{ x.exchange with
        replies := Function.update x.exchange.replies c ms
        received := push x.exchange.received c [m] }, clients⟩ := by
      simp [run, Remote.step, State.go, Exchange.step, hr, hc, hx.clients, hclients]
    simp only [acts, hnext]
    refine ⟨_, hrun, { hx with clients := rfl, impl := ?_, down := ?_, replies := ?_ }⟩
    · intro d hd
      dsimp only
      by_cases hdc : d = c
      · subst hdc
        rw [Function.update_self]
        exact ⟨conn, rfl, hlive⟩
      · rw [Function.update_of_ne hdc]
        exact hx.impl d hd
    · intro d
      dsimp only
      by_cases hdc : d = c
      · subst hdc
        rw [Function.update_self, Function.update_self, hrest]
      · rw [Function.update_of_ne hdc, Function.update_of_ne hdc, hx.down d]
    · intro d r hd
      dsimp only at hd
      by_cases hdc : d = c
      · subst hdc
        rw [Function.update_self] at hd
        exact hx.replies d r (hr ▸ List.mem_cons_of_mem m hd)
      · rw [Function.update_of_ne hdc] at hd
        exact hx.replies d r hd

omit [DecidableEq N] in
theorem update_content {w : C → Wire} {w' : Wire} (h : w'.content = (w c).content) (d : C) :
    (Function.update w c w' d).content = (w d).content := by
  by_cases hd : d = c
  · subst hd
    rw [Function.update_self, h]
  · rw [Function.update_of_ne hd]

/-- Below the messages the bytes make steps of their own, and no others. -/
theorem step_refines : Simulates (step process foreign)
    (Remote.step process foreign : State P W C N → _) (Fits process) (Refines foreign)
    (acts foreign) := by
  intro u a v x hx hfit h
  cases a with
  | invoke c call sync fails =>
    obtain ⟨hc, h⟩ := Option.ite_none_left_eq_some.mp h
    obtain ⟨y, hy, hv⟩ := invoke_refines hx (Bool.not_eq_true _ ▸ hc) hfit h
    exact ⟨y, run_single.mpr hy, hv⟩
  | caller c a =>
    obtain ⟨hc, h⟩ := Option.ite_none_right_eq_some.mp h
    obtain ⟨clients, hclients, rfl⟩ := Option.map_eq_some_iff.mp h
    refine ⟨⟨x.exchange, clients⟩, run_single.mpr ?_, { hx with clients := rfl }⟩
    rw [Remote.step, if_pos hc, hx.clients, hclients]
    rfl
  | change l =>
    obtain rfl := Option.some.inj h
    refine ⟨⟨{ x.exchange with
        server := (l.apply u.service, u.world), past := u.past ++ [.change l] }, x.clients⟩,
      run_single.mpr ?_, { hx with server := rfl, past := rfl }⟩
    simp [Remote.step, State.go, run, Exchange.step, hx.server, hx.past, server]
  | arriveUp c n =>
    obtain rfl := Option.some.inj h
    exact ⟨x, rfl, { hx with
      up := fun d hd => (update_content (arrive_content _ _) d).trans (hx.up d hd) }⟩
  | arriveDown c n =>
    obtain rfl := Option.some.inj h
    exact ⟨x, rfl, { hx with
      down := fun d => (update_content (arrive_content _ _) d).trans (hx.down d) }⟩
  | serve c => exact serve_refines hx hfit h
  | receive c =>
    obtain ⟨hc, h⟩ := Option.ite_none_left_eq_some.mp h
    exact receive_refines hx (Bool.not_eq_true _ ▸ hc) h
  | write c b =>
    obtain ⟨hc, h⟩ := Option.ite_none_right_eq_some.mp h
    obtain rfl := Option.some.inj h
    refine ⟨x, rfl, { hx with up := fun d hd => ?_ }⟩
    have hdc : d ≠ c := by
      rintro rfl
      rw [hd] at hc
      cases hc
    dsimp only
    rw [Function.update_of_ne hdc]
    exact hx.up d hd

end DericRpc.Network
