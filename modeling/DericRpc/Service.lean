import DericRpc.Functions
import DericRpc.Connection

/-! The server's dispatch: RpcServiceImpl::handleData looks a command up by name and runs
it, and RpcServiceClientEntry sends back whatever result string it gets. -/
namespace DericRpc.Service
open ByteString Codec Common Serial Functions Connection

/-- `serialer` tells whether m_serialer is set. -/
structure RpcServiceImpl (P : MsgPack) (W : Type) where
  state : ComponentState := .created
  serialer : Bool := false
  functions : Bytes → Option (Registered P W) := fun _ => none

/-- The service with the helper that its registered closures hold weakly. -/
structure RpcServiceEntry (P : MsgPack) (W : Type) where
  serviceImpl : RpcServiceImpl P W
  funcHelper : Option FunctionHelper

variable {P : MsgPack} {W : Type}

def RpcServiceImpl.registerMethod (s : RpcServiceImpl P W) (funcName : Bytes)
    (func : Registered P W) : RpcServiceImpl P W × Int :=
  match s.functions funcName with
  | some _ => (s, -1)
  | none => ({ s with functions := Function.update s.functions funcName (some func) }, 0)

def RpcServiceImpl.unregisterMethod (s : RpcServiceImpl P W) (funcName : Bytes) :
    RpcServiceImpl P W × Int :=
  match s.functions funcName with
  | none => (s, -1)
  | some _ => ({ s with functions := Function.update s.functions funcName none }, 0)

def RpcServiceEntry.registerMethod (s : RpcServiceEntry P W) (funcName : Bytes)
    (func : Registered P W) : RpcServiceEntry P W × Int :=
  match s.funcHelper with
  | none => (s, -1)
  | some _ =>
    let out := s.serviceImpl.registerMethod funcName func
    ({ s with serviceImpl := out.1 }, out.2)

def RpcServiceEntry.unregisterMethod (s : RpcServiceEntry P W) (funcName : Bytes) :
    RpcServiceEntry P W × Int :=
  let out := s.serviceImpl.unregisterMethod funcName
  ({ s with serviceImpl := out.1 }, out.2)

def handleCommand (s : RpcServiceEntry P W) (funcName : Str32) (data resultString : Bytes)
    (w : W) : ExecOut P W :=
  match s.serviceImpl.functions funcName.1 with
  | none => ⟨-1, resultString, w, []⟩
  | some func => func.run s.funcHelper data resultString w

def handleRegister (resultString : Bytes) (w : W) : ExecOut P W := ⟨0, resultString, w, []⟩

/-- `data` is the range of bytes that pData and len delimit. -/
def handleData (s : RpcServiceEntry P W) (data resultString : Bytes) (w : W) : ExecOut P W :=
  if s.serviceImpl.state ≠ .started then ⟨-1, resultString, w, []⟩
  else if s.serviceImpl.serialer = false then ⟨-1, resultString, w, []⟩
  else
    let msgType := messageTypeOf (readType P data)
    let msgId := readId P data
    let msgName := readName P data
    match msgType with
    | some .command =>
      -- the reply header is in the result string before the command has run
      let resultString :=
        (serialMessageMeta P MessageType.replay.code msgName msgId resultString).1
      handleCommand s msgName data resultString w
    | some .register => handleRegister resultString w
    | _ => ⟨-1, resultString, w, []⟩

/-- `serviceImpl` and `ioConnection` are none where the pointers are null. -/
structure RpcServiceClientEntry (P : MsgPack) (W : Type) where
  serviceImpl : Option (RpcServiceEntry P W)
  ioConnection : Option TcpIoConnection

structure EntryOut (P : MsgPack) (W : Type) where
  entry : RpcServiceClientEntry P W
  written : Bytes
  res : Int
  world : W
  entered : List (Entered P W)

def RpcServiceClientEntry.sendData (e : RpcServiceClientEntry P W) (data : Bytes)
    (send : Bytes → Option Nat) : Option (RpcServiceClientEntry P W × Bytes × Int) :=
  match e.ioConnection with
  | none => some (e, [], -1)
  | some c => (Connection.sendData c data (toInt data.length) send).map fun out =>
      ({ e with ioConnection := some out.conn }, out.written, out.res)

/-- The result string goes out even when handleData failed. -/
def RpcServiceClientEntry.handleData (e : RpcServiceClientEntry P W) (data : Bytes) (w : W)
    (send : Bytes → Option Nat) : Option (EntryOut P W) :=
  match e.serviceImpl with
  | none => some ⟨e, [], -1, w, []⟩
  | some s =>
    let out := Service.handleData s data [] w
    if toInt out.resultString.length = 0 then
      some ⟨e, [], out.res, out.world, out.entered⟩
    else
      (e.sendData out.resultString send).map fun (e', written, res) =>
        ⟨e', written, res, out.world, out.entered⟩

/-- A started service; its init took a serialer. -/
structure Accepting (s : RpcServiceEntry P W) : Prop where
  started : s.serviceImpl.state = .started
  serialer : s.serviceImpl.serialer = true

/-- The closures of the service run, too: their helper lives and has a serialer. -/
structure Serving (s : RpcServiceEntry P W) : Prop extends Accepting s where
  ready : Ready s.funcHelper = true

/-- The registered function that a message is a command for. -/
def target (s : RpcServiceEntry P W) (data : Bytes) : Option (Registered P W) :=
  if messageTypeOf (readType P data) = some .command then
    s.serviceImpl.functions (readName P data).1
  else none

theorem registerMethod_spec (s : RpcServiceImpl P W) (name : Bytes) (func : Registered P W) :
    ((s.registerMethod name func).2 = 0 ↔ s.functions name = none) ∧
    ∀ other, (s.registerMethod name func).1.functions other =
      (s.functions other).or (if name = other then some func else none) := by
  unfold RpcServiceImpl.registerMethod
  cases h : s.functions name with
  | none =>
    refine ⟨by simp, fun other => ?_⟩
    by_cases ho : name = other
    · subst ho
      simp [h]
    · simp [ho, Function.update_of_ne (Ne.symm ho)]
  | some f =>
    refine ⟨by simp, fun other => ?_⟩
    by_cases ho : name = other
    · subst ho
      simp [h]
    · simp [ho]

theorem unregisterMethod_spec (s : RpcServiceImpl P W) (name : Bytes) :
    ((s.unregisterMethod name).2 = 0 ↔ s.functions name ≠ none) ∧
    ∀ other, (s.unregisterMethod name).1.functions other =
      if other = name then none else s.functions other := by
  unfold RpcServiceImpl.unregisterMethod
  cases h : s.functions name with
  | none =>
    refine ⟨by simp, fun other => ?_⟩
    split_ifs with ho
    · rw [ho, h]
    · rfl
  | some f => exact ⟨by simp, fun other => by simp [Function.update_apply]⟩

theorem handleData_command {s : RpcServiceEntry P W} (hs : Accepting s) {data : Bytes}
    (ht : messageTypeOf (readType P data) = some .command) (resultString : Bytes) (w : W) :
    handleData s data resultString w = handleCommand s (readName P data) data
      (header P .replay (readName P data) (readId P data)) w := by
  simp only [handleData, hs.started, hs.serialer, ne_eq, not_true_eq_false, if_false, ht,
    Bool.true_eq_false]
  rfl

/-- A message that is no command changes nothing, and only a REGISTER is not refused. -/
theorem handleData_other {s : RpcServiceEntry P W} {data : Bytes}
    (h : Accepting s → messageTypeOf (readType P data) ≠ some .command)
    (resultString : Bytes) (w : W) :
    ∃ res, handleData s data resultString w = ⟨res, resultString, w, []⟩ ∧
      (messageTypeOf (readType P data) ≠ some .register → res < 0) := by
  by_cases hstate : s.serviceImpl.state = .started
  · cases hserialer : s.serviceImpl.serialer with
    | false => simp [handleData, hstate, hserialer]
    | true =>
      cases ht : messageTypeOf (readType P data) with
      | none => simp [handleData, hstate, hserialer, ht]
      | some t =>
        cases t with
        | command => exact absurd ht (h ⟨hstate, hserialer⟩)
        | replay => simp [handleData, hstate, hserialer, ht]
        | notify => simp [handleData, hstate, hserialer, ht]
        | register => simp [handleData, hstate, hserialer, ht, handleRegister]
  · simp [handleData, hstate]

theorem handleCommand_refused {s : RpcServiceEntry P W} {funcName : Str32}
    (h : Ready s.funcHelper = true → s.serviceImpl.functions funcName.1 = none)
    (data resultString : Bytes) (w : W) :
    handleCommand s funcName data resultString w = ⟨-1, resultString, w, []⟩ := by
  cases hf : s.serviceImpl.functions funcName.1 with
  | none => simp [handleCommand, hf]
  | some func =>
    have hready : Ready s.funcHelper = false := by
      by_contra hne
      rw [hf] at h
      cases h (by simpa using hne)
    simp [handleCommand, hf, run_not_ready func hready]

theorem handleData_target {s : RpcServiceEntry P W} (hs : Serving s) {data : Bytes}
    {func : Registered P W} (h : target s data = some func) (resultString : Bytes) (w : W) :
    handleData s data resultString w =
      finish func.function (readData P func.function.args data)
        (header P .replay (readName P data) (readId P data)) w := by
  obtain ⟨ht, hf⟩ := Option.ite_none_right_eq_some.mp h
  rw [handleData_command hs.toAccepting ht, handleCommand, hf]
  exact run_ready func hs.ready _ _ _

theorem handleData_entered_nil {s : RpcServiceEntry P W} {data : Bytes}
    (h : Serving s → target s data = none) (resultString : Bytes) (w : W) :
    (handleData s data resultString w).entered = [] := by
  by_cases hcommand : Accepting s ∧ messageTypeOf (readType P data) = some .command
  · obtain ⟨hs, ht⟩ := hcommand
    have hrefused : Ready s.funcHelper = true →
        s.serviceImpl.functions (readName P data).1 = none := by
      intro hready
      simpa only [target, if_pos ht] using h ⟨hs, hready⟩
    rw [handleData_command hs ht, handleCommand_refused hrefused]
  · obtain ⟨res, hother, -⟩ := handleData_other (fun hs ht => hcommand ⟨hs, ht⟩) resultString w
    rw [hother]

theorem handleData_entered_length (s : RpcServiceEntry P W) (data resultString : Bytes) (w : W) :
    (handleData s data resultString w).entered.length ≤ 1 := by
  by_cases hs : Serving s
  · cases ht : target s data with
    | none =>
      rw [handleData_entered_nil (fun _ => ht) resultString w]
      exact Nat.zero_le 1
    | some func =>
      rw [handleData_target hs ht, finish_entered]
      rfl
  · rw [handleData_entered_nil (fun h => absurd h hs) resultString w]
    exact Nat.zero_le 1

theorem handleData_entered {s : RpcServiceEntry P W} {data resultString : Bytes} {w : W}
    {e : Entered P W} (h : e ∈ (handleData s data resultString w).entered) :
    Serving s ∧ ∃ func, target s data = some func ∧ e.func = func.function := by
  have hs : Serving s := by
    by_contra hs
    rw [handleData_entered_nil (fun h => absurd h hs) resultString w] at h
    cases h
  refine ⟨hs, ?_⟩
  cases ht : target s data with
  | none =>
    rw [handleData_entered_nil (fun _ => ht) resultString w] at h
    cases h
  | some func =>
    rw [handleData_target hs ht, finish_entered, List.mem_singleton] at h
    exact ⟨func, rfl, congrArg Entered.func h⟩

/-- Whatever becomes of a message, what goes back is nothing or starts with the reply
header for it. -/
theorem handleData_resultString (s : RpcServiceEntry P W) (data : Bytes) (w : W) :
    (handleData s data [] w).resultString = [] ∨
    ∃ rest, (handleData s data [] w).resultString =
      header P .replay (readName P data) (readId P data) ++ rest := by
  by_cases hcommand : Accepting s ∧ messageTypeOf (readType P data) = some .command
  · obtain ⟨hs, ht⟩ := hcommand
    rw [handleData_command hs ht]
    by_cases hready : Ready s.funcHelper = true
    · cases hf : s.serviceImpl.functions (readName P data).1 with
      | none =>
        rw [handleCommand_refused fun _ => hf]
        exact .inr ⟨[], (List.append_nil _).symm⟩
      | some func =>
        rw [handleCommand, hf]
        change (func.run _ _ _ _).resultString = [] ∨ ∃ rest, (func.run _ _ _ _).resultString = _
        rw [run_ready func hready]
        cases hret : func.function.ret with
        | none => exact .inl (finish_void hret _ _ _)
        | some ret => exact .inr ⟨_, finish_result hret _ _ _⟩
    · rw [handleCommand_refused fun h => absurd h hready]
      exact .inr ⟨[], (List.append_nil _).symm⟩
  · obtain ⟨res, hother, -⟩ := handleData_other (fun hs ht => hcommand ⟨hs, ht⟩) [] w
    exact .inl (by rw [hother])

/-- A function is entered with the fourth object's tuple, or with none at all, exactly when
a command that finds its function brings a fourth object of that function's tuple type. -/
theorem entered_with_sent_args_iff (s : RpcServiceEntry P W) (data resultString : Bytes)
    (w : W) :
    (∀ e ∈ (handleData s data resultString w).entered,
      messageData P e.func.args data = some e.args) ↔
    (Serving s → ∀ func, target s data = some func →
      (messageData P func.function.args data).isSome = true) := by
  by_cases hs : Serving s
  · cases ht : target s data with
    | none =>
      rw [handleData_entered_nil (fun _ => ht) resultString w]
      exact iff_of_true (fun _ h => nomatch h) fun _ _ h => nomatch h
    | some func =>
      rw [handleData_target hs ht, finish_entered]
      simp only [List.mem_singleton, forall_eq, Option.some.injEq, hs, true_imp_iff, forall_eq']
      cases hd : messageData P func.function.args data with
      | none => simp
      | some args => simp [readData, hd]
  · rw [handleData_entered_nil (fun h => absurd h hs) resultString w]
    exact iff_of_true (fun _ h => nomatch h) fun h => absurd h hs

/-- A command cut off inside its arguments enters its function with value-initialised
ones. -/
theorem cut_command_entered {s : RpcServiceEntry P W} (hs : Serving s) {msgName : Str32}
    {func : Registered P W} (hf : s.serviceImpl.functions msgName.1 = some func)
    (args : func.function.TupleArgs) {data rest : Bytes}
    (hcut : data ++ rest = P.pack (func.function.args.toObj args)) (hrest : rest ≠ [])
    (msgId : Int32) (resultString : Bytes) (w : W) :
    (handleData s (header P .command msgName msgId ++ data) resultString w).entered =
      [⟨func.function, func.function.args.init⟩] := by
  have ht : target s (header P .command msgName msgId ++ data) = some func := by
    simp [target, messageTypeOf_code, hf]
  rw [handleData_target hs ht, finish_entered, readData,
    messageData_cut P .command msgName msgId hcut hrest, Option.getD_none]

/-! A service with one function, which adds two numbers, for runs on concrete messages. -/

def intPair : Convert MessagePack.Obj (Int32 × Int32 × Unit) :=
  MessagePack.tuple (.cons MessagePack.int (.cons MessagePack.int .nil)) (by decide)

def add : FreeFunction standard Unit where
  TupleArgs := Int32 × Int32 × Unit
  args := intPair
  ReturnType := Int32
  ret := some MessagePack.int
  call args w := (args.1 + args.2.1, w)

def addName : Str32 := ⟨[97, 100, 100], by decide⟩

def addService : RpcServiceEntry standard Unit where
  serviceImpl :=
    { state := .started, serialer := true
      functions := Function.update (fun _ => none) addName.1 (some (.free add)) }
  funcHelper := some ⟨true⟩

theorem addService_serving : Serving addService := ⟨⟨rfl, rfl⟩, rfl⟩

theorem addService_target (msgId : Int32) (rest : Bytes) :
    target addService (header standard .command addName msgId ++ rest) =
      some (.free add) := by
  simp [target, messageTypeOf_code, addService]

/-- A command cut off behind its id enters the function with value-initialised arguments. -/
theorem entered_without_args :
    ¬ ∀ (s : RpcServiceEntry standard Unit) (data resultString : Bytes) (w : Unit),
      s.serviceImpl.state = .started →
      ∀ e ∈ (handleData s data resultString w).entered,
        messageData standard e.func.args data = some e.args := by
  intro h
  have ht := addService_target 1 []
  rw [List.append_nil] at ht
  have he := h addService (header standard .command addName 1) [] () rfl ⟨add, 0, 0, ()⟩ (by
    rw [handleData_target addService_serving ht, finish_entered, readData,
      messageData_header]
    exact List.mem_singleton.mpr rfl)
  rw [messageData_header] at he
  cases he

end DericRpc.Service
