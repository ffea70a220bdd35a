import DericRpc.Service
import DericRpc.Lib.Lts

/-! Dispatch over a history of registerMethod and unregisterMethod calls: the function that a
command enters is the one its name is bound to by the calls so far. -/
namespace DericRpc.Dispatch
open ByteString Codec Common Serial Functions Service
variable {P : MsgPack} {W : Type}

inductive Call (P : MsgPack) (W : Type) where
  | registerMethod (funcName : Bytes) (func : Registered P W)
  | unregisterMethod (funcName : Bytes)

def Call.apply (s : RpcServiceEntry P W) : Call P W → RpcServiceEntry P W × Int
  | .registerMethod funcName func => s.registerMethod funcName func
  | .unregisterMethod funcName => s.unregisterMethod funcName

/-- The function that a call would bind to the name. -/
def Call.registers (name : Bytes) : Call P W → Option (Registered P W)
  | .registerMethod funcName func => if funcName = name then some func else none
  | .unregisterMethod _ => none

/-- A constructed service before its first call; no call looks at the other members. -/
def newEntry (state : ComponentState) (serialer : Bool) (helper : FunctionHelper) :
    RpcServiceEntry P W :=
  ⟨{ state := state, serialer := serialer }, some helper⟩

section History
variable (state : ComponentState) (serialer : Bool) (helper : FunctionHelper)

def after (calls : List (Call P W)) : RpcServiceEntry P W :=
  calls.foldl (fun s c => (c.apply s).1) (newEntry state serialer helper)

/-- What a call returns behind the calls before it. -/
def result (calls : List (Call P W)) (c : Call P W) : Int :=
  (c.apply (after state serialer helper calls)).2

/-- The history is empty or ends with a successful unregisterMethod of the name. -/
def JustWithdrawn (name : Bytes) (calls : List (Call P W)) : Prop :=
  calls = [] ∨ ∃ before, calls = before ++ [.unregisterMethod name] ∧
    result state serialer helper before (.unregisterMethod name) = 0

/-- No unregisterMethod of the name among the calls since `old` succeeded. -/
def NoneWithdrawn (name : Bytes) (old since : List (Call P W)) : Prop :=
  ∀ pre post, since = pre ++ .unregisterMethod name :: post →
    result state serialer helper (old ++ pre) (.unregisterMethod name) ≠ 0

/-- The function of the earliest registerMethod of the name since its last successful
unregisterMethod. -/
def Current (calls : List (Call P W)) (name : Bytes) (func : Registered P W) : Prop :=
  ∃ old since, calls = old ++ since ∧ JustWithdrawn state serialer helper name old ∧
    NoneWithdrawn state serialer helper name old since ∧
    since.findSome? (Call.registers name) = some func

def Bound (calls : List (Call P W)) (name : Bytes) : Prop :=
  ∃ func, Current state serialer helper calls name func

def functionsAfter (calls : List (Call P W)) (name : Bytes) : Option (Registered P W) :=
  (after state serialer helper calls).serviceImpl.functions name

variable {state serialer helper}

@[simp] theorem after_concat (calls : List (Call P W)) (c : Call P W) :
    after state serialer helper (calls ++ [c]) =
      (c.apply (after state serialer helper calls)).1 := by
  simp [after]

theorem apply_funcHelper (s : RpcServiceEntry P W) (c : Call P W) :
    (c.apply s).1.funcHelper = s.funcHelper := by
  cases c with
  | registerMethod funcName func =>
    simp only [Call.apply, RpcServiceEntry.registerMethod]
    cases h : s.funcHelper <;> simp [h]
  | unregisterMethod funcName => rfl

@[simp] theorem after_funcHelper (calls : List (Call P W)) :
    (after state serialer helper calls).funcHelper = some helper := by
  induction calls using List.reverseRecOn with
  | nil => rfl
  | append_singleton calls c ih => rw [after_concat, apply_funcHelper, ih]

theorem result_registerMethod (calls : List (Call P W)) (name : Bytes) (func : Registered P W) :
    result state serialer helper calls (.registerMethod name func) = 0 ↔
      functionsAfter state serialer helper calls name = none := by
  rw [result, Call.apply, RpcServiceEntry.registerMethod, after_funcHelper]
  exact (registerMethod_spec _ name func).1

theorem result_unregisterMethod (calls : List (Call P W)) (name : Bytes) :
    result state serialer helper calls (.unregisterMethod name) = 0 ↔
      functionsAfter state serialer helper calls name ≠ none :=
  (unregisterMethod_spec _ name).1

theorem functionsAfter_registerMethod (calls : List (Call P W)) (name other : Bytes)
    (func : Registered P W) :
    functionsAfter state serialer helper (calls ++ [.registerMethod name func]) other =
      (functionsAfter state serialer helper calls other).or
        (Call.registers other (.registerMethod name func)) := by
  rw [functionsAfter, after_concat, Call.apply, RpcServiceEntry.registerMethod, after_funcHelper]
  exact (registerMethod_spec _ name func).2 other

theorem functionsAfter_unregisterMethod (calls : List (Call P W)) (name other : Bytes) :
    functionsAfter state serialer helper (calls ++ [.unregisterMethod name]) other =
      if other = name then none else functionsAfter state serialer helper calls other := by
  rw [functionsAfter, after_concat]
  exact (unregisterMethod_spec _ name).2 other

theorem functionsAfter_justWithdrawn {name : Bytes} {calls : List (Call P W)}
    (h : JustWithdrawn state serialer helper name calls) :
    functionsAfter state serialer helper calls name = none := by
  rcases h with rfl | ⟨before, rfl, -⟩
  · rfl
  · rw [functionsAfter_unregisterMethod, if_pos rfl]

/-- While no unregisterMethod of the name succeeds, the earliest registerMethod binds it. -/
theorem functionsAfter_since {name : Bytes} {old since : List (Call P W)}
    (hold : functionsAfter state serialer helper old name = none)
    (hsince : NoneWithdrawn state serialer helper name old since) :
    functionsAfter state serialer helper (old ++ since) name =
      since.findSome? (Call.registers name) := by
  induction since using List.reverseRecOn with
  | nil => simpa using hold
  | append_singleton since c ih =>
    have hprev := ih fun pre post hpre =>
      hsince pre (post ++ [c]) (by simp [hpre])
    rw [← List.append_assoc, List.findSome?_append, ← hprev]
    cases c with
    | registerMethod funcName func =>
      rw [functionsAfter_registerMethod, List.findSome?_singleton]
    | unregisterMethod funcName =>
      rw [functionsAfter_unregisterMethod]
      split_ifs with hname
      · have hnot := hsince since [] (by rw [hname])
        rw [ne_eq, result_unregisterMethod, not_not] at hnot
        rw [hnot]
        rfl
      · simp [Call.registers]

/-- Every history splits at the last successful unregisterMethod of a name. -/
theorem exists_lastWithdrawn (name : Bytes) (calls : List (Call P W)) :
    ∃ old since, calls = old ++ since ∧ JustWithdrawn state serialer helper name old ∧
      NoneWithdrawn state serialer helper name old since := by
  induction calls using List.reverseRecOn with
  | nil => exact ⟨[], [], rfl, .inl rfl, fun pre post h => by simp at h⟩
  | append_singleton calls c ih =>
    by_cases hc : c = .unregisterMethod name ∧
        result state serialer helper calls (.unregisterMethod name) = 0
    · refine ⟨calls ++ [c], [], by simp, .inr ⟨calls, by rw [hc.1], hc.2⟩, ?_⟩
      intro pre post h
      simp at h
    · obtain ⟨old, since, rfl, hold, hsince⟩ := ih
      refine ⟨old, since ++ [c], by simp, hold, fun pre post h => ?_⟩
      rcases Lts.split_snoc h with ⟨rfl, hlast, -⟩ | ⟨rest, -, hpre⟩
      · intro hres
        exact hc ⟨hlast, hres⟩
      · exact hsince pre rest hpre

/-- The table holds for each name its current binding. -/
theorem functionsAfter_eq_some_iff (calls : List (Call P W)) (name : Bytes)
    (func : Registered P W) :
    functionsAfter state serialer helper calls name = some func ↔
      Current state serialer helper calls name func := by
  constructor
  · intro h
    obtain ⟨old, since, rfl, hold, hsince⟩ := exists_lastWithdrawn name calls
    have hfind := functionsAfter_since (functionsAfter_justWithdrawn hold) hsince
    exact ⟨old, since, rfl, hold, hsince, hfind ▸ h⟩
  · rintro ⟨old, since, rfl, hold, hsince, hfind⟩
    rw [functionsAfter_since (functionsAfter_justWithdrawn hold) hsince, hfind]

theorem bound_iff (calls : List (Call P W)) (name : Bytes) :
    Bound state serialer helper calls name ↔
      functionsAfter state serialer helper calls name ≠ none := by
  simp only [Bound, ← functionsAfter_eq_some_iff, Option.ne_none_iff_exists']

/-- For every history and every message: what is entered, and when, what each call returns, what is
sent back. -/
theorem dispatch_by_current_binding (state : ComponentState) (serialer : Bool)
    (helper : FunctionHelper) (calls : List (Call P W)) (data : Bytes) (w : W) :
    let s := after state serialer helper calls
    let out := handleData s data [] w
    let msgType := messageTypeOf (readType P data)
    let msgName := readName P data
    out.entered.length ≤ 1 ∧
    (∀ e ∈ out.entered, s.serviceImpl.state = .started ∧ msgType = some .command ∧
      ∃ func, Current state serialer helper calls msgName.1 func ∧ e.func = func.function) ∧
    (∀ func, Serving s → msgType = some .command →
      Current state serialer helper calls msgName.1 func →
      ∃ e, out.entered = [e] ∧ e.func = func.function) ∧
    (∀ name func, result state serialer helper calls (.registerMethod name func) = 0 ↔
      ¬Bound state serialer helper calls name) ∧
    (∀ name, result state serialer helper calls (.unregisterMethod name) = 0 ↔
      Bound state serialer helper calls name) ∧
    (out.resultString ≠ [] →
      header P .replay msgName (readId P data) <+: out.resultString) ∧
    (msgType ≠ some .command →
      out.resultString = [] ∧ (msgType ≠ some .register → out.res < 0)) := by
  intro s out msgType msgName
  refine ⟨?_, ?_, ?_, ?_, ?_, ?_, ?_⟩
  · exact handleData_entered_length s data [] w
  · intro e he
    obtain ⟨hs, func, htarget, hfunc⟩ := handleData_entered he
    obtain ⟨hcommand, hbinding⟩ := Option.ite_none_right_eq_some.mp htarget
    exact ⟨hs.started, hcommand, func, (functionsAfter_eq_some_iff calls _ func).mp hbinding, hfunc⟩
  · intro func hs hcommand hcurrent
    have hbinding : s.serviceImpl.functions msgName.1 = some func :=
      (functionsAfter_eq_some_iff calls _ func).mpr hcurrent
    have htarget : target s data = some func := by rw [target, if_pos hcommand, hbinding]
    refine ⟨⟨func.function, readData P func.function.args data⟩, ?_, rfl⟩
    simp only [out, handleData_target hs htarget, finish_entered]
  · intro name func
    rw [result_registerMethod, bound_iff, not_not]
  · intro name
    rw [result_unregisterMethod, bound_iff]
  · intro hne
    obtain ⟨rest, hrest⟩ := (handleData_resultString s data w).resolve_left hne
    exact ⟨rest, hrest.symm⟩
  · intro hcommand
    obtain ⟨res, hother, hres⟩ := handleData_other (fun _ : Accepting s => hcommand) [] w
    simp only [out, hother]
    exact ⟨trivial, hres⟩

end History
end DericRpc.Dispatch
