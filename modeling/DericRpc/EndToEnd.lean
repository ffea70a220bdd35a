import DericRpc.Service
import DericRpc.Framing

/-! Whole calls: commands written by a client, read and run by the service one by one, and
the replies as the client reads them. -/
namespace DericRpc.EndToEnd
open ByteString Codec Common Serial Functions Service Connection Framing

variable {P : MsgPack} {W : Type}

/-- A command for a function that the service has. -/
structure Command (s : RpcServiceEntry P W) where
  name : Str32
  id : Int32
  func : Registered P W
  registered : s.serviceImpl.functions name.1 = some func
  args : func.function.TupleArgs

variable {s : RpcServiceEntry P W}

/-- What invoke and invokeWithResultSync build: the meta data, then the argument tuple. -/
def Command.bytes (k : Command s) : Bytes :=
  message P k.func.function.args .command k.name k.id k.args

def Command.entering (k : Command s) : Entered P W := ⟨k.func.function, k.args⟩

/-- A returned value with the name and id of the command that it answers. -/
structure Result (P : MsgPack) where
  name : Str32
  id : Int32
  T : Type
  conv : Convert P.Obj T
  value : T

def Result.message (r : Result P) : Bytes := Serial.message P r.conv .replay r.name r.id r.value

/-- The value that the function returns in world `w`; a void function has none. -/
def Command.result (k : Command s) (w : W) : Option (Result P) :=
  k.func.function.ret.map fun ret =>
    ⟨k.name, k.id, k.func.function.ReturnType, ret, (k.func.function.call k.args w).1⟩

/-- The values returned when the functions are called in order. -/
def results (w : W) : List (Command s) → List (Result P)
  | [] => []
  | k :: ks => (k.result w).toList ++ results (k.func.function.call k.args w).2 ks

/-- The server's side of a connection after some reads, with all bytes it wrote. -/
structure Served (P : MsgPack) (W : Type) where
  entry : RpcServiceClientEntry P W
  stream : Incoming
  written : Bytes
  world : W
  entered : List (Entered P W)

/-- One onReadAvailable of the server's connection, through to the bytes of the reply. No
result where the read blocks, fails or reports the close of the connection. -/
def serve (e : RpcServiceClientEntry P W) (s : Incoming) (w : W) : Option (Served P W) :=
  e.ioConnection.bind fun c => (onReadAvailable c s {}).bind fun out =>
    match out.call with
    | some (.handleData pData len) =>
      -- the connection's buffers are the only state that both reading and replying touch
      (RpcServiceClientEntry.handleData { e with ioConnection := some out.conn }
        (pData.take len.toNat) w sendsAll).map fun r =>
          ⟨r.entry, out.stream, r.written, r.world, r.entered⟩
    | _ => none

def serveN (e : RpcServiceClientEntry P W) (s : Incoming) (w : W) : Nat → Option (Served P W)
  | 0 => some ⟨e, s, [], w, []⟩
  | n+1 => (serve e s w).bind fun r => (serveN r.entry r.stream r.world n).map fun t =>
      { t with written := r.written ++ t.written, entered := r.entered ++ t.entered }

theorem Command.bytes_pos (k : Command s) : 1 ≤ k.bytes.length := by
  have h := header_ne_nil P .command k.name k.id
  have hp := List.length_pos_iff.mpr h
  rw [Command.bytes, message_eq, List.length_append]
  omega

theorem Result.message_pos (r : Result P) : 1 ≤ r.message.length := by
  have h := header_ne_nil P .replay r.name r.id
  have hp := List.length_pos_iff.mpr h
  rw [Result.message, message_eq, List.length_append]
  omega

theorem target_bytes (k : Command s) : target s k.bytes = some k.func := by
  rw [target, Command.bytes, message_eq, readType_header, readName_header,
    messageTypeOf_code, if_pos rfl, k.registered]

/-- A command enters its function with the arguments it carries, and the result string is
the reply message of the returned value, or empty. -/
theorem handleData_bytes (hs : Serving s) (k : Command s) (resultString : Bytes) (w : W) :
    handleData s k.bytes resultString w =
        finish k.func.function k.args (header P .replay k.name k.id) w ∧
      (handleData s k.bytes resultString w).resultString =
        ((k.result w).toList.flatMap Result.message) := by
  have hargs : readData P k.func.function.args k.bytes = k.args :=
    readData_message P .command k.name k.id k.func.function.args k.args
  have hname : readName P k.bytes = k.name := readName_header P _ _ _ _
  have hid : readId P k.bytes = k.id := readId_header P _ _ _ _
  have hrun := handleData_target hs (target_bytes k) resultString w
  rw [hargs, hname, hid] at hrun
  refine ⟨hrun, ?_⟩
  rw [hrun]
  cases hret : k.func.function.ret with
  | none => simp [finish_void hret, Command.result, hret]
  | some ret =>
    simp [finish_result hret, Command.result, hret, Result.message, message_eq]

theorem entry_handleData_bytes (hs : Serving s) (k : Command s) (c : TcpIoConnection)
    (hc : Started c) (w : W) (hr : ∀ r ∈ k.result w, r.message.length ≤ maxMessage) :
    ∃ buffer res, RpcServiceClientEntry.handleData ⟨some s, some c⟩ k.bytes w sendsAll =
      some ⟨⟨some s, some { c with sendBuffer := buffer }⟩,
        frames ((k.result w).toList.map Result.message), res,
        (k.func.function.call k.args w).2, [k.entering]⟩ := by
  obtain ⟨hrun, hstring⟩ := handleData_bytes hs k [] w
  have hworld : (handleData s k.bytes [] w).world = (k.func.function.call k.args w).2 := by
    rw [hrun, finish_world]
  have hentered : (handleData s k.bytes [] w).entered = [k.entering] := by
    rw [hrun, finish_entered]; rfl
  cases hres : k.result w with
  | none =>
    have hnil : (handleData s k.bytes [] w).resultString = [] := by
      rw [hstring, hres]; rfl
    have hzero : toInt (handleData s k.bytes [] w).resultString.length = 0 := by
      rw [hnil, List.length_nil]
      exact toInt_of_fits (by omega)
    refine ⟨c.sendBuffer, (handleData s k.bytes [] w).res, ?_⟩
    simp only [RpcServiceClientEntry.handleData, hzero, if_true, hworld, hentered]
    rfl
  | some r =>
    have hmax : r.message.length ≤ maxMessage := hr r (by simp [hres])
    have hfits : r.message.length < 2 ^ 31 := lt_of_le_of_lt hmax (by decide)
    have hpos := r.message_pos
    have hmsg : (handleData s k.bytes [] w).resultString = r.message := by
      rw [hstring, hres]; simp
    have hlen : toInt r.message.length = r.message.length := toInt_of_fits hfits
    have hne : ¬ (r.message.length : Int) = 0 := by omega
    refine ⟨frame r.message, tcpHeaderSize + r.message.length, ?_⟩
    simp only [RpcServiceClientEntry.handleData, hmsg, hlen, hne, if_false,
      RpcServiceClientEntry.sendData, sendData_frame c r.message hc hpos hmax, Option.map_some,
      hworld, hentered]
    simp [frames]

theorem serve_command (hs : Serving s) (k : Command s) (c : TcpIoConnection) (hc : c.Live)
    (rest : Bytes) (w : W) (hk : k.bytes.length ≤ maxMessage)
    (hr : ∀ r ∈ k.result w, r.message.length ≤ maxMessage) :
    ∃ c', c'.Live ∧ serve ⟨some s, some c⟩ ⟨frame k.bytes ++ rest, false⟩ w =
      some ⟨⟨some s, some c'⟩, ⟨rest, false⟩, frames ((k.result w).toList.map Result.message),
        (k.func.function.call k.args w).2, [k.entering]⟩ := by
  have hread := onReadAvailable_frame hc k.bytes rest false k.bytes_pos hk
  obtain ⟨buffer, res, hentry⟩ := entry_handleData_bytes hs k { c with receiveBuffer := [] }
    ⟨hc.1, hc.2.1⟩ w hr
  refine ⟨{ c with receiveBuffer := [], sendBuffer := buffer }, hc, ?_⟩
  unfold serve
  rw [Option.bind_some, hread, Option.bind_some]
  change (RpcServiceClientEntry.handleData ⟨some s, some { c with receiveBuffer := [] }⟩
    (k.bytes.take (k.bytes.length : Int).toNat) w sendsAll).map _ = _
  rw [Int.toNat_natCast, List.take_length, hentry, Option.map_some]

theorem serveN_commands (hs : Serving s) (ks : List (Command s)) (c : TcpIoConnection)
    (hc : c.Live) (w : W) (hk : ∀ k ∈ ks, k.bytes.length ≤ maxMessage)
    (hr : ∀ r ∈ results w ks, r.message.length ≤ maxMessage) :
    ∃ out, serveN ⟨some s, some c⟩ ⟨frames (ks.map Command.bytes), false⟩ w ks.length =
        some out ∧ out.stream = ⟨[], false⟩ ∧ out.entered = ks.map Command.entering ∧
      out.written = frames ((results w ks).map Result.message) := by
  induction ks generalizing c w with
  | nil => exact ⟨_, rfl, rfl, rfl, rfl⟩
  | cons k ks ih =>
    obtain ⟨c', hc', hserve⟩ := serve_command hs k c hc (frames (ks.map Command.bytes)) w
      (hk k (by simp)) fun r h => hr r (by simp [results, Option.mem_def.mp h])
    obtain ⟨out, hout, hstream, hentered, hwritten⟩ := ih c' hc' (k.func.function.call k.args w).2
      (fun x hx => hk x (List.mem_cons_of_mem k hx))
      fun r h => hr r (List.mem_append_right _ h)
    have hsplit : frames ((k :: ks).map Command.bytes) =
        frame k.bytes ++ frames (ks.map Command.bytes) := by simp [frames]
    refine ⟨{ out with
        written := frames ((k.result w).toList.map Result.message) ++ out.written
        entered := k.entering :: out.entered }, ?_, hstream, ?_, ?_⟩
    · rw [List.length_cons, serveN, hsplit, hserve, Option.bind_some, hout, Option.map_some]
      rfl
    · simp [hentered]
    · simp [hwritten, results, frames]

theorem decode_message (r : Result P) :
    readType P r.message = MessageType.replay.code ∧ readName P r.message = r.name ∧
      readId P r.message = r.id ∧ readData P r.conv r.message = r.value :=
  ⟨readType_header P _ _ _ _, readName_header P _ _ _ _,
    readId_header P _ _ _ _, readData_message P _ _ _ _ _⟩

/-- Commands sent in order over one connection run their functions in order, and the bytes
that come back are the frames of the returned values, in order, which the client decodes. -/
theorem end_to_end_calls (hs : Serving s) (ks : List (Command s)) (client server : TcpIoConnection)
    (hclient : client.Live) (hserver : server.Live) (w : W)
    (hk : ∀ k ∈ ks, k.bytes.length ≤ maxMessage)
    (hr : ∀ r ∈ results w ks, r.message.length ≤ maxMessage) :
    ∃ client' sent out, sendAll client (ks.map Command.bytes) = some (client', sent) ∧
      serveN ⟨some s, some server⟩ ⟨sent, false⟩ w ks.length = some out ∧
      out.stream = ⟨[], false⟩ ∧ out.entered = ks.map Command.entering ∧
      out.written = frames ((results w ks).map Result.message) ∧
      (∃ client'', readN client' ⟨out.written, false⟩ (results w ks).length =
        some (client'', ⟨[], false⟩, (results w ks).map fun r =>
          some (.handleData r.message r.message.length))) ∧
      ∀ r ∈ results w ks, readType P r.message = MessageType.replay.code ∧
        readName P r.message = r.name ∧ readId P r.message = r.id ∧
        readData P r.conv r.message = r.value := by
  have hcommands : Framable (ks.map Command.bytes) := by
    intro m hm
    obtain ⟨k, hmem, rfl⟩ := List.mem_map.mp hm
    exact ⟨k.bytes_pos, hk k hmem⟩
  have hreplies : Framable ((results w ks).map Result.message) := by
    intro m hm
    obtain ⟨r, hmem, rfl⟩ := List.mem_map.mp hm
    exact ⟨r.message_pos, hr r hmem⟩
  obtain ⟨buffer, hsent⟩ := sendAll_frames client _ ⟨hclient.1, hclient.2.1⟩ hcommands
  obtain ⟨out, hout, hstream, hentered, hwritten⟩ := serveN_commands hs ks server hserver w hk hr
  obtain ⟨client'', -, hread⟩ := readN_frames { client with sendBuffer := buffer } _ [] false
    hclient hreplies
  refine ⟨_, _, out, hsent, hout, hstream, hentered, hwritten, ⟨client'', ?_⟩,
    fun r _ => decode_message r⟩
  rw [List.append_nil, List.length_map, List.map_map] at hread
  rw [hwritten]
  exact hread

def addCommand (id a b : Int32) : Command addService where
  name := addName
  id := id
  func := .free add
  registered := by simp [addService]
  args := (a, b, ())

/-- Two sums over one connection. -/
theorem end_to_end_calls_add :
    ∃ client' sent out,
      sendAll ⟨.started, [], [], 4, .client, true⟩
        ([addCommand 1 2 3, addCommand 2 40 50].map Command.bytes) = some (client', sent) ∧
      serveN ⟨some addService, some ⟨.started, [], [], 5, .server, true⟩⟩ ⟨sent, false⟩ () 2 =
        some out ∧
      out.written = frames [Serial.message standard MessagePack.int .replay addName 1 5,
        Serial.message standard MessagePack.int .replay addName 2 90] := by
  obtain ⟨client', sent, out, hsent, hout, -, -, hwritten, -⟩ :=
    end_to_end_calls addService_serving [addCommand 1 2 3, addCommand 2 40 50]
      ⟨.started, [], [], 4, .client, true⟩ ⟨.started, [], [], 5, .server, true⟩
      ⟨rfl, by decide, rfl⟩ ⟨rfl, by decide, rfl⟩ () (by decide +kernel) (by decide +kernel)
  exact ⟨client', sent, out, hsent, hout, hwritten⟩

end DericRpc.EndToEnd
