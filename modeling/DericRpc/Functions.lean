import DericRpc.Serial

/-! FunctionHelper: unpack the argument tuple of a registered function, enter the function
and append its result to the reply. User code acts on a world `W` of its own. -/
namespace DericRpc.Functions
open ByteString Codec Serial

variable (P : MsgPack) (W : Type)

/-- function_traits: the decayed argument tuple and the return type, `none` for void. -/
structure FunctionTraits where
  TupleArgs : Type
  args : Convert P.Obj TupleArgs
  ReturnType : Type
  ret : Option (Convert P.Obj ReturnType)

structure FreeFunction extends FunctionTraits P where
  call : TupleArgs → W → ReturnType × W

structure MemberFunction (O : Type) extends FunctionTraits P where
  call : O → TupleArgs → W → ReturnType × W

variable {P W}

/-- A member function seen as a function of its arguments, as callMemberFunc wraps it. -/
def MemberFunction.on {O : Type} (func : MemberFunction P W O) (obj : O) : FreeFunction P W where
  toFunctionTraits := func.toFunctionTraits
  call := func.call obj

variable (P W)

/-- What registerMethod captures besides the helper. -/
inductive Registered where
  | free (func : FreeFunction P W)
  | member (O : Type) (func : MemberFunction P W O) (obj : O)

/-- A function being entered: which one, and with which arguments. -/
structure Entered where
  func : FreeFunction P W
  args : func.TupleArgs

/-- The result of running a command: the code, the result string, the user's world, and
the functions entered. -/
structure ExecOut where
  res : Int
  resultString : Bytes
  world : W
  entered : List (Entered P W)

variable {P W}

def Registered.function : Registered P W → FreeFunction P W
  | .free func => func
  | .member _ func obj => func.on obj

/-- `serialer` tells whether m_serialer is set. -/
structure FunctionHelper where
  serialer : Bool

/-- Enter a function with the tuple unpacked by index, and take the reply from its result. -/
def finish (func : FreeFunction P W) (args : func.TupleArgs) (resultString : Bytes) (w : W) :
    ExecOut P W :=
  let funcRes := func.call args w
  match func.ret with
  | some ret =>
    ⟨0, (serialMessageData P ret funcRes.1 resultString).1, funcRes.2, [⟨func, args⟩]⟩
  | none => ⟨0, [], funcRes.2, [⟨func, args⟩]⟩

/-- The two overloads for free functions; the return type selects one. -/
def FunctionHelper.exec (h : FunctionHelper) (func : FreeFunction P W)
    (data resultString : Bytes) (w : W) : ExecOut P W :=
  if h.serialer = false then ⟨-1, resultString, w, []⟩
  else finish func (readData P func.args data) resultString w

/-- The two overloads for member functions. -/
def FunctionHelper.execMember {O : Type} (h : FunctionHelper) (func : MemberFunction P W O)
    (obj : O) (data resultString : Bytes) (w : W) : ExecOut P W :=
  if h.serialer = false then ⟨-1, resultString, w, []⟩
  else finish (func.on obj) (readData P func.args data) resultString w

/-- The closure that registerMethod builds; `wp` is what its weak pointer locks. -/
def Registered.run (func : Registered P W) (wp : Option FunctionHelper)
    (data resultString : Bytes) (w : W) : ExecOut P W :=
  match wp with
  | none => ⟨-1, resultString, w, []⟩
  | some sp =>
    match func with
    | .free func => sp.exec func data resultString w
    | .member _ func obj => sp.execMember func obj data resultString w

/-- A closure enters its function when its helper lives and has a serialer. -/
def Ready (wp : Option FunctionHelper) : Bool := wp.any fun sp => sp.serialer

theorem run_ready (func : Registered P W) {wp : Option FunctionHelper} (h : Ready wp = true)
    (data resultString : Bytes) (w : W) : func.run wp data resultString w =
      finish func.function (readData P func.function.args data) resultString w := by
  cases wp with
  | none => cases h
  | some sp =>
    have hs : sp.serialer = true := by simpa [Ready] using h
    cases func <;> simp [Registered.run, FunctionHelper.exec, FunctionHelper.execMember, hs,
      Registered.function, MemberFunction.on]

theorem run_not_ready (func : Registered P W) {wp : Option FunctionHelper}
    (h : Ready wp = false) (data resultString : Bytes) (w : W) :
    func.run wp data resultString w = ⟨-1, resultString, w, []⟩ := by
  cases wp with
  | none => rfl
  | some sp =>
    have hs : sp.serialer = false := by simpa [Ready] using h
    cases func <;> simp [Registered.run, FunctionHelper.exec, FunctionHelper.execMember, hs]

@[simp] theorem finish_entered (func : FreeFunction P W) (args : func.TupleArgs)
    (resultString : Bytes) (w : W) :
    (finish func args resultString w).entered = [⟨func, args⟩] := by
  unfold finish
  cases func.ret <;> rfl

@[simp] theorem finish_world (func : FreeFunction P W) (args : func.TupleArgs)
    (resultString : Bytes) (w : W) :
    (finish func args resultString w).world = (func.call args w).2 := by
  unfold finish
  cases func.ret <;> rfl

theorem finish_void {func : FreeFunction P W} (h : func.ret = none) (args : func.TupleArgs)
    (resultString : Bytes) (w : W) : (finish func args resultString w).resultString = [] := by
  simp [finish, h]

theorem finish_result {func : FreeFunction P W} {ret : Convert P.Obj func.ReturnType}
    (h : func.ret = some ret) (args : func.TupleArgs) (resultString : Bytes) (w : W) :
    (finish func args resultString w).resultString =
      resultString ++ P.pack (ret.toObj (func.call args w).1) := by
  simp [finish, h, serialMessageData]

end DericRpc.Functions
