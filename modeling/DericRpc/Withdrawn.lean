import DericRpc.ServiceLife

/-! handleData against a service that changes meanwhile: the state check, the look-up that
copies the function, and the call outside of the locks are three steps, between which
methods are registered and unregistered and the service is started and stopped. -/
namespace DericRpc.Withdrawn
open ByteString Codec Common Serial Functions Service Io IoServer Lts

/-- Where one handleData is; a refused one only has its result left. -/
inductive Phase (P : MsgPack) (W : Type) where
  | idle
  | checked (data : Bytes) (accepted : Bool)
  | looked (data resultString : Bytes) (func : Option (Registered P W)) (res : Int)
  | returned (res : Int) (resultString : Bytes)

/-- `entered` lists the functions entered so far. -/
structure Shared (P : MsgPack) (W : Type) where
  life : ServiceLife.System P W
  funcHelper : Option FunctionHelper
  callers : Nat → Phase P W := fun _ => .idle
  world : W
  entered : List (Entered P W) := []

inductive Act (P : MsgPack) (W : Type) where
  | registerMethod (funcName : Bytes) (func : Registered P W)
  | unregisterMethod (funcName : Bytes)
  | life (a : ServiceLife.Act)
  | check (i : Nat) (data : Bytes)
  | lookup (i : Nat)
  | call (i : Nat)

variable {P : MsgPack} {W : Type}

def Shared.entry (u : Shared P W) : RpcServiceEntry P W :=
  ⟨u.life.impl.toRpcServiceImpl, u.funcHelper⟩

def Shared.setImpl (u : Shared P W) (impl : RpcServiceImpl P W) : Shared P W :=
  { u with life := { u.life with impl := { u.life.impl with toRpcServiceImpl := impl } } }

def Shared.move (u : Shared P W) (i : Nat) (p : Phase P W) : Shared P W :=
  { u with callers := Function.update u.callers i p }

/-- Under m_instanceMutex. -/
def accepts (u : Shared P W) : Bool :=
  if u.life.impl.state ≠ .started then false else u.life.impl.serialer

/-- The result string that handleCommand starts with. -/
def replyHeader (P : MsgPack) (data : Bytes) : Bytes :=
  (serialMessageMeta P MessageType.replay.code (readName P data) (readId P data) []).1

/-- Decoding, and the look-up under m_functionsMutex. -/
def lookup (u : Shared P W) (data : Bytes) (accepted : Bool) : Phase P W :=
  if accepted = false then .looked data [] none (-1)
  else match messageTypeOf (readType P data) with
    | some .command =>
      match u.life.impl.functions (readName P data).1 with
      | none => .looked data (replyHeader P data) none (-1)
      | some func => .looked data (replyHeader P data) (some func) 0
    | some .register => .looked data [] none 0
    | _ => .looked data [] none (-1)

def step (u : Shared P W) : Act P W → Option (Shared P W)
  | .registerMethod funcName func =>
    some (u.setImpl (u.entry.registerMethod funcName func).1.serviceImpl)
  | .unregisterMethod funcName =>
    some (u.setImpl (u.entry.unregisterMethod funcName).1.serviceImpl)
  | .life a => (ServiceLife.step u.life a).map fun life => { u with life := life }
  | .check i data =>
    match u.callers i with
    | .idle | .returned _ _ => some (u.move i (.checked data (accepts u)))
    | _ => none
  | .lookup i =>
    match u.callers i with
    | .checked data accepted => some (u.move i (lookup u data accepted))
    | _ => none
  | .call i =>
    match u.callers i with
    | .looked _ resultString none res => some (u.move i (.returned res resultString))
    | .looked data resultString (some func) _ =>
      let out := func.run u.funcHelper data resultString u.world
      some { u.move i (.returned out.res out.resultString) with
        world := out.world, entered := u.entered ++ out.entered }
    | _ => none

/-- The handleData that a step belongs to. -/
def caller : Act P W → Option Nat
  | .check i _ | .lookup i | .call i => some i
  | _ => none

section Withdrawal
variable (m : Move (Shared P W) (Act P W)) (name : Bytes)

/-- registerMethod returned 0. -/
def Registers (func : Registered P W) : Prop :=
  m.act = .registerMethod name func ∧ (m.pre.entry.registerMethod name func).2 = 0

def Unregisters : Prop :=
  m.act = .unregisterMethod name ∧ (m.pre.entry.unregisterMethod name).2 = 0

def Starts : Prop :=
  ∃ answers life res, m.act = .life (.start answers) ∧
    ServiceLife.start m.pre.life answers = some (life, res) ∧ 0 ≤ res

/-- RpcServiceImpl::stop returned 0. -/
def Stops : Prop :=
  ∃ refused life, m.act = .life (.stop refused) ∧
    ServiceLife.stop m.pre.life refused = some (life, 0)

end Withdrawal

/-- The function was registered under the name, and the name not unregistered since. -/
def Bound (name : Bytes) (func : Registered P W) (ms : List (Move (Shared P W) (Act P W))) :
    Prop :=
  Since (fun _ m => Registers m name func) (fun m => Unregisters m name) ms

/-- The service was started, and not stopped since. -/
def Running (ms : List (Move (Shared P W) (Act P W))) : Prop :=
  Since (fun _ m => Starts m) Stops ms

/-- The last step of handleData `i` was its state check, of a running service. -/
def CheckedRunning (i : Nat) (data : Bytes) (ms : List (Move (Shared P W) (Act P W))) : Prop :=
  Since (fun pre m => m.act = .check i data ∧ Running pre) (fun m => caller m.act = some i) ms

/-- The last step of handleData `i` was its look-up, of a function that was bound, behind its
check of a running service. -/
def LookedBound (i : Nat) (data : Bytes) (func : Registered P W)
    (ms : List (Move (Shared P W) (Act P W))) : Prop :=
  Since (fun pre m => m.act = .lookup i ∧ Bound (readName P data).1 func pre ∧
    CheckedRunning i data pre) (fun m => caller m.act = some i) ms

/-- The step enters the function, for a command with this data. -/
def Enters (m : Move (Shared P W) (Act P W)) (i : Nat) (data : Bytes) (func : Registered P W) :
    Prop :=
  m.act = .call i ∧ (∃ resultString res, m.pre.callers i = .looked data resultString (some func) res) ∧
    ∃ args, m.post.entered = m.pre.entered ++ [⟨func.function, args⟩]

theorem registerMethod_state (s : RpcServiceEntry P W) (funcName : Bytes)
    (func : Registered P W) :
    (s.registerMethod funcName func).1.serviceImpl.state = s.serviceImpl.state := by
  unfold RpcServiceEntry.registerMethod RpcServiceImpl.registerMethod
  cases s.funcHelper with
  | none => rfl
  | some helper => cases h : s.serviceImpl.functions funcName <;> rfl

theorem unregisterMethod_state (s : RpcServiceEntry P W) (funcName : Bytes) :
    (s.unregisterMethod funcName).1.serviceImpl.state = s.serviceImpl.state := by
  unfold RpcServiceEntry.unregisterMethod RpcServiceImpl.unregisterMethod
  cases h : s.serviceImpl.functions funcName <;> rfl

/-- What a step of handleData `i` does: its next phase, and what it enters. -/
inductive CallerStep (u : Shared P W) (i : Nat) : Act P W → Phase P W → List (Entered P W) → Prop
  | check (data : Bytes) : CallerStep u i (.check i data) (.checked data (accepts u)) []
  | lookup (data : Bytes) (accepted : Bool) (hp : u.callers i = .checked data accepted) :
      CallerStep u i (.lookup i) (lookup u data accepted) []
  | refused (data resultString : Bytes) (res : Int)
      (hp : u.callers i = .looked data resultString none res) :
      CallerStep u i (.call i) (.returned res resultString) []
  | call (data resultString : Bytes) (func : Registered P W) (res : Int)
      (hp : u.callers i = .looked data resultString (some func) res) :
      CallerStep u i (.call i)
        (.returned (func.run u.funcHelper data resultString u.world).res
          (func.run u.funcHelper data resultString u.world).resultString)
        (func.run u.funcHelper data resultString u.world).entered

theorem caller_step {u v : Shared P W} {a : Act P W} {i : Nat} (h : step u a = some v)
    (ha : caller a = some i) : ∃ p w es, CallerStep u i a p es ∧
      v = { u.move i p with world := w, entered := u.entered ++ es } := by
  have hnil (p : Phase P W) :
      u.move i p = { u.move i p with world := u.world, entered := u.entered ++ [] } := by
    rw [List.append_nil]
    rfl
  cases a with
  | check j data =>
    obtain rfl := Option.some.inj ha
    simp only [step] at h
    split at h
    · exact ⟨_, _, _, .check data, (Option.some.inj h).symm.trans (hnil _)⟩
    · exact ⟨_, _, _, .check data, (Option.some.inj h).symm.trans (hnil _)⟩
    · cases h
  | lookup j =>
    obtain rfl := Option.some.inj ha
    simp only [step] at h
    split at h
    · exact ⟨_, _, _, .lookup _ _ ‹_›, (Option.some.inj h).symm.trans (hnil _)⟩
    · cases h
  | call j =>
    obtain rfl := Option.some.inj ha
    simp only [step] at h
    split at h
    · exact ⟨_, _, _, .refused _ _ _ ‹_›, (Option.some.inj h).symm.trans (hnil _)⟩
    · exact ⟨_, _, _, .call _ _ _ _ ‹_›, (Option.some.inj h).symm⟩
    · cases h
  | registerMethod funcName func => cases ha
  | unregisterMethod funcName => cases ha
  | life a => cases ha

theorem caller_life {u v : Shared P W} {a : Act P W} {i : Nat} (h : step u a = some v)
    (ha : caller a = some i) : v.life = u.life := by
  obtain ⟨p, w, es, -, rfl⟩ := caller_step h ha
  rfl

theorem step_started {u v : Shared P W} {a : Act P W} (h : step u a = some v)
    (hv : v.life.impl.state = .started) :
    Starts ⟨u, a, v⟩ ∨ u.life.impl.state = .started ∧ ¬Stops ⟨u, a, v⟩ := by
  cases hcaller : caller a with
  | some i =>
    refine .inr ⟨caller_life h hcaller ▸ hv, ?_⟩
    rintro ⟨refused, life, rfl, -⟩
    cases hcaller
  | none =>
    cases a with
    | registerMethod funcName func =>
      rw [← Option.some.inj h] at hv
      refine .inr ⟨(registerMethod_state u.entry funcName func).symm.trans hv, ?_⟩
      rintro ⟨refused, life, ha, -⟩
      cases ha
    | unregisterMethod funcName =>
      rw [← Option.some.inj h] at hv
      refine .inr ⟨(unregisterMethod_state u.entry funcName).symm.trans hv, ?_⟩
      rintro ⟨refused, life, ha, -⟩
      cases ha
    | life a =>
      obtain ⟨life, hlife, rfl⟩ := Option.map_eq_some_iff.mp h
      obtain ⟨⟨w, res⟩, hcall, rfl⟩ := Option.map_eq_some_iff.mp hlife
      rcases (ServiceLife.call_frame hcall).2 hv with ⟨answers, rfl, hres⟩ | ⟨hu, hstop⟩
      · exact .inl ⟨answers, w, res, rfl, hcall, hres⟩
      · refine .inr ⟨hu, ?_⟩
        rintro ⟨refused, life, ha, -⟩
        exact hstop refused (Act.life.inj ha)
    | check j data => cases hcaller
    | lookup j => cases hcaller
    | call j => cases hcaller

theorem step_bound {u v : Shared P W} {a : Act P W} {name : Bytes} {func : Registered P W}
    (h : step u a = some v) (hv : v.life.impl.functions name = some func) :
    Registers ⟨u, a, v⟩ name func ∨
      u.life.impl.functions name = some func ∧ ¬Unregisters ⟨u, a, v⟩ name := by
  cases hcaller : caller a with
  | some i =>
    refine .inr ⟨caller_life h hcaller ▸ hv, ?_⟩
    rintro ⟨rfl, -⟩
    cases hcaller
  | none =>
    cases a with
    | registerMethod funcName f =>
      have hnot : ¬Unregisters ⟨u, .registerMethod funcName f, v⟩ name := fun hu => nomatch hu.1
      rw [← Option.some.inj h] at hv
      change (u.entry.registerMethod funcName f).1.serviceImpl.functions name = some func at hv
      cases hhelper : u.funcHelper with
      | none =>
        simp only [RpcServiceEntry.registerMethod, Shared.entry, hhelper] at hv
        exact .inr ⟨hv, hnot⟩
      | some helper =>
        have hspec := registerMethod_spec u.life.impl.toRpcServiceImpl funcName f
        simp only [RpcServiceEntry.registerMethod, Shared.entry, hhelper, hspec.2] at hv
        cases hold : u.life.impl.functions name with
        | some g =>
          rw [hold] at hv
          exact .inr ⟨hv, hnot⟩
        | none =>
          rw [hold, Option.none_or] at hv
          obtain ⟨rfl, hf⟩ := Option.ite_none_right_eq_some.mp hv
          obtain rfl := Option.some.inj hf
          refine .inl ⟨rfl, ?_⟩
          simpa only [RpcServiceEntry.registerMethod, Shared.entry, hhelper] using
            hspec.1.mpr hold
    | unregisterMethod funcName =>
      rw [← Option.some.inj h] at hv
      have hspec := unregisterMethod_spec u.life.impl.toRpcServiceImpl funcName
      obtain ⟨hne, hold⟩ : name ≠ funcName ∧ u.life.impl.functions name = some func := by
        simpa [RpcServiceEntry.unregisterMethod, Shared.setImpl, Shared.entry, hspec.2] using hv
      exact .inr ⟨hold, fun hu => hne (Act.unregisterMethod.inj hu.1).symm⟩
    | life a =>
      obtain ⟨life, hlife, rfl⟩ := Option.map_eq_some_iff.mp h
      obtain ⟨⟨w, res⟩, hcall, rfl⟩ := Option.map_eq_some_iff.mp hlife
      exact .inr ⟨(ServiceLife.call_frame hcall).1 ▸ hv, fun hu => nomatch hu.1⟩
    | check j data => cases hcaller
    | lookup j => cases hcaller
    | call j => cases hcaller

theorem other_step {u v : Shared P W} {a : Act P W} (h : step u a = some v)
    (ha : caller a = none) : v.callers = u.callers ∧ v.entered = u.entered := by
  cases a with
  | registerMethod funcName func =>
    rw [← Option.some.inj h]
    exact ⟨rfl, rfl⟩
  | unregisterMethod funcName =>
    rw [← Option.some.inj h]
    exact ⟨rfl, rfl⟩
  | life a =>
    obtain ⟨life, -, rfl⟩ := Option.map_eq_some_iff.mp h
    exact ⟨rfl, rfl⟩
  | check j data => cases ha
  | lookup j => cases ha
  | call j => cases ha

theorem step_callers {u v : Shared P W} {a : Act P W} {i : Nat} (h : step u a = some v) :
    (caller a ≠ some i ∧ v.callers i = u.callers i) ∨
      ∃ p es, caller a = some i ∧ CallerStep u i a p es ∧ v.callers i = p := by
  cases hcaller : caller a with
  | none => exact .inl ⟨nofun, by rw [(other_step h hcaller).1]⟩
  | some j =>
    obtain ⟨p, w, es, hstep, rfl⟩ := caller_step h hcaller
    by_cases hi : i = j
    · subst hi
      exact .inr ⟨p, es, rfl, hstep, Function.update_self ..⟩
    · exact .inl ⟨fun he => hi (Option.some.inj he).symm, Function.update_of_ne hi ..⟩

/-- A newly constructed service, which nobody has called yet. -/
def new (io : IoModule Member) (kernel : Kernel) (helper : FunctionHelper) (w : W) :
    Shared P W :=
  { life := { io := io, kernel := kernel }, funcHelper := some helper, world := w }

section Run
variable {io : IoModule Member} {kernel : Kernel} {helper : FunctionHelper} {w : W}
  {ms : List (Move (Shared P W) (Act P W))} {u : Shared P W}

theorem running_of_started (h : Path step (new io kernel helper w) ms u)
    (hu : u.life.impl.state = .started) : Running ms :=
  h.since (R := fun x => x.life.impl.state = .started) nofun
    (fun _ _ _ _ _ hs hv => step_started hs hv) hu

theorem bound_of_functions (h : Path step (new io kernel helper w) ms u) {name : Bytes}
    {func : Registered P W} (hu : u.life.impl.functions name = some func) :
    Bound name func ms :=
  h.since (R := fun x => x.life.impl.functions name = some func) nofun
    (fun _ _ _ _ _ hs hv => step_bound hs hv) hu

theorem accepts_started (hu : accepts u = true) : u.life.impl.state = .started := by
  by_contra hne
  rw [accepts, if_pos hne] at hu
  cases hu

theorem lookup_found {data data' resultString : Bytes} {accepted : Bool}
    {func : Registered P W} {res : Int}
    (h : lookup u data accepted = .looked data' resultString (some func) res) :
    accepted = true ∧ data = data' ∧
      u.life.impl.functions (readName P data).1 = some func := by
  unfold lookup at h
  cases accepted with
  | false => cases h
  | true =>
    rw [if_neg (by decide)] at h
    split at h
    · split at h
      · cases h
      · rename_i f hf
        injection h with hdata hresult hfunc hres
        obtain rfl := Option.some.inj hfunc
        exact ⟨rfl, hdata, hf⟩
    · cases h
    · cases h

theorem lookup_ne_checked {data data' : Bytes} {accepted : Bool} (x : Shared P W)
    (accepted' : Bool) : lookup x data accepted ≠ .checked data' accepted' := by
  unfold lookup
  split_ifs
  · nofun
  · split
    · split <;> nofun
    · nofun
    · nofun

theorem checkedRunning_of_checked (h : Path step (new io kernel helper w) ms u) {i : Nat}
    {data : Bytes} (hu : u.callers i = .checked data true) : CheckedRunning i data ms := by
  refine h.since (R := fun x => x.callers i = .checked data true) nofun ?_ hu
  intro pre x a v hpre hs hv
  rcases step_callers (i := i) hs with ⟨hother, hsame⟩ | ⟨p, es, -, hstep, hp⟩
  · exact .inr ⟨hsame ▸ hv, hother⟩
  · rw [hp] at hv
    cases hstep with
    | check data' =>
      injection hv with hdata haccepts
      subst hdata
      exact .inl ⟨rfl, running_of_started hpre (accepts_started haccepts)⟩
    | lookup data' accepted hp' => exact absurd hv (lookup_ne_checked _ _)
    | refused => cases hv
    | call => cases hv

theorem lookedBound_of_looked (h : Path step (new io kernel helper w) ms u) {i : Nat}
    {data : Bytes} {func : Registered P W}
    (hu : ∃ resultString res, u.callers i = .looked data resultString (some func) res) :
    LookedBound i data func ms := by
  refine h.since
    (R := fun x => ∃ resultString res, x.callers i = .looked data resultString (some func) res)
    (by rintro ⟨resultString, res, hnew⟩; cases hnew) ?_ hu
  rintro pre x a v hpre hs ⟨resultString, res, hv⟩
  rcases step_callers (i := i) hs with ⟨hother, hsame⟩ | ⟨p, es, -, hstep, hp⟩
  · exact .inr ⟨⟨resultString, res, hsame ▸ hv⟩, hother⟩
  · rw [hp] at hv
    cases hstep with
    | check data' => cases hv
    | lookup data' accepted hchecked =>
      obtain ⟨rfl, rfl, hf⟩ := lookup_found hv
      exact .inl ⟨rfl, bound_of_functions hpre hf, checkedRunning_of_checked hpre hchecked⟩
    | refused => cases hv
    | call => cases hv

/-- The closures enter their own function or, without their helper, nothing. -/
theorem run_entered (func : Registered P W) (wp : Option FunctionHelper)
    (data resultString : Bytes) (world : W) :
    (func.run wp data resultString world).entered = [] ∨
      ∃ args, (func.run wp data resultString world).entered = [⟨func.function, args⟩] := by
  cases hready : Ready wp with
  | true => exact .inr ⟨_, by rw [run_ready func hready, finish_entered]⟩
  | false => exact .inl (by rw [run_not_ready func hready])

/-- Nothing is entered but by the last step of a handleData that found its function. -/
theorem step_entered {x v : Shared P W} {a : Act P W} (hs : step x a = some v)
    (hne : v.entered ≠ x.entered) : ∃ i data func, Enters ⟨x, a, v⟩ i data func := by
  cases hcaller : caller a with
  | none => exact absurd (other_step hs hcaller).2 hne
  | some i =>
    obtain ⟨p, world, es, hstep, rfl⟩ := caller_step hs hcaller
    cases hstep with
    | call data resultString func res hp =>
      rcases run_entered func x.funcHelper data resultString x.world with hnil | ⟨args, hone⟩
      · exact absurd (by rw [hnil]; exact List.append_nil _) hne
      · exact ⟨i, data, func, rfl, ⟨resultString, res, hp⟩, args, by rw [hone]⟩
    | _ => exact absurd (List.append_nil _) hne

/-- Every function that a step of a run enters was bound at the look-up of its handleData,
and the service running at the check before that. -/
theorem entered_was_bound {pre post : List (Move (Shared P W) (Act P W))}
    {m : Move (Shared P W) (Act P W)} (h : Path step (new io kernel helper w) ms u)
    (hms : ms = pre ++ m :: post) (hne : m.post.entered ≠ m.pre.entered) :
    ∃ i data func, Enters m i data func ∧ LookedBound i data func pre := by
  obtain ⟨hpre, hstep⟩ := h.before hms
  obtain ⟨i, data, func, henters⟩ := step_entered hstep hne
  exact ⟨i, data, func, henters, lookedBound_of_looked hpre henters.2.1⟩

end Run

/-- What an uninterrupted look-up finds is what Service.handleData goes on with. -/
theorem lookup_handleData (u : Shared P W) (data : Bytes) : ∃ resultString func res,
    lookup u data (accepts u) = .looked data resultString func res ∧
    ∀ w, handleData u.entry data [] w =
      match func with
      | none => ⟨res, resultString, w, []⟩
      | some func => func.run u.funcHelper data resultString w := by
  by_cases hs : u.life.impl.state = .started
  · cases hserialer : u.life.impl.serialer with
    | false =>
      exact ⟨[], none, -1, by simp [lookup, accepts, hs, hserialer],
        fun w => by simp [handleData, Shared.entry, hs, hserialer]⟩
    | true =>
      have haccepting : Accepting u.entry := ⟨hs, hserialer⟩
      have haccepts : accepts u = true := by simp [accepts, hs, hserialer]
      rw [haccepts]
      cases ht : messageTypeOf (readType P data) with
      | none =>
        exact ⟨[], none, -1, by simp [lookup, ht],
          fun w => by simp [handleData, Shared.entry, hs, hserialer, ht]⟩
      | some t =>
        cases t with
        | command =>
          have hcommand := handleData_command haccepting ht []
          cases hf : u.life.impl.functions (readName P data).1 with
          | none =>
            refine ⟨replyHeader P data, none, -1, by simp [lookup, ht, hf], fun w => ?_⟩
            rw [hcommand, handleCommand_refused fun _ => hf]
            rfl
          | some func =>
            refine ⟨replyHeader P data, some func, 0, by simp [lookup, ht, hf], fun w => ?_⟩
            rw [hcommand, handleCommand]
            simp only [Shared.entry, hf]
            rfl
        | register =>
          exact ⟨[], none, 0, by simp [lookup, ht],
            fun w => by simp [handleData, Shared.entry, hs, hserialer, ht, handleRegister]⟩
        | replay =>
          exact ⟨[], none, -1, by simp [lookup, ht],
            fun w => by simp [handleData, Shared.entry, hs, hserialer, ht]⟩
        | notify =>
          exact ⟨[], none, -1, by simp [lookup, ht],
            fun w => by simp [handleData, Shared.entry, hs, hserialer, ht]⟩
  · exact ⟨[], none, -1, by simp [lookup, accepts, hs],
      fun w => by simp [handleData, Shared.entry, hs]⟩

/-- Without steps of others in between, the three steps are Service.handleData. -/
theorem handleData_steps {u : Shared P W} {i : Nat} (hi : u.callers i = .idle) (data : Bytes) :
    let out := handleData u.entry data [] u.world
    ∃ v, run step u [.check i data, .lookup i, .call i] = some v ∧
      v.callers i = .returned out.res out.resultString ∧ v.world = out.world ∧
      v.entered = u.entered ++ out.entered ∧ v.life = u.life := by
  obtain ⟨resultString, func, res, hlookup, hout⟩ := lookup_handleData u data
  let u1 := u.move i (.checked data (accepts u))
  let u2 := u1.move i (.looked data resultString func res)
  have h1 : step u (.check i data) = some u1 := by simp only [step, hi, u1]
  have h2 : step u1 (.lookup i) = some u2 := by
    have hp : u1.callers i = .checked data (accepts u) := Function.update_self ..
    have hlookup' : lookup u1 data (accepts u) = .looked data resultString func res := hlookup
    simp only [step, hp, hlookup', u2]
  have hp : u2.callers i = .looked data resultString func res := Function.update_self ..
  have hrun : run step u [.check i data, .lookup i, .call i] = step u2 (.call i) := by
    simp only [run, h1, h2, Option.bind_some, Option.bind_fun_some]
  rw [hrun, hout]
  cases func with
  | none =>
    have h3 : step u2 (.call i) = some (u2.move i (.returned res resultString)) := by
      simp only [step, hp]
    exact ⟨_, h3, Function.update_self .., rfl, (List.append_nil _).symm, rfl⟩
  | some func =>
    let out := func.run u.funcHelper data resultString u.world
    have h3 : step u2 (.call i) = some { u2.move i (.returned out.res out.resultString) with
        world := out.world, entered := u.entered ++ out.entered } := by
      simp only [step, hp]
      rfl
    exact ⟨_, h3, Function.update_self .., rfl, rfl, rfl⟩

/-! One command that comes before its function is unregistered and calls it behind. -/

def addCommand : Bytes := header standard .command addName 1

def startedIo : IoModule Member := { state := .started, epollFd := 3, wakeUpPipeFd := (4, 5) }

def startedKernel : Kernel := { isOpen := fun fd => fd = 3 }

def lookedUp : List (Act standard Unit) :=
  [.life (.init ⟨[], 80, 5, true⟩), .life (.start ⟨7, true, true, false⟩),
    .registerMethod addName.1 (.free add), .check 0 addCommand, .lookup 0]

theorem lookedUp_run : ∃ ms u,
    Path step (new startedIo startedKernel ⟨true⟩ ()) ms u ∧ u.funcHelper = some ⟨true⟩ ∧
      u.callers 0 =
        .looked addCommand (replyHeader standard addCommand) (some (.free add)) 0 ∧
      u.life.impl.functions addName.1 = some (.free add) := by
  have hrun : ∃ u, run step (new startedIo startedKernel ⟨true⟩ ()) lookedUp = some u ∧
      u.funcHelper = some ⟨true⟩ ∧ u.callers 0 =
        .looked addCommand (replyHeader standard addCommand) (some (.free add)) 0 ∧
      u.life.impl.functions addName.1 = some (.free add) := ⟨_, rfl, rfl, rfl, rfl⟩
  obtain ⟨u, hrun, hu⟩ := hrun
  obtain ⟨ms, hp, -⟩ := path_of_run hrun
  exact ⟨ms, u, hp, hu⟩

theorem call_enters {u : Shared standard Unit} (hhelper : u.funcHelper = some ⟨true⟩)
    (hu : u.callers 0 =
      .looked addCommand (replyHeader standard addCommand) (some (.free add)) 0) :
    ∃ v, step u (.call 0) = some v ∧ v.entered ≠ u.entered ∧
      Enters ⟨u, .call 0, v⟩ 0 addCommand (.free add) := by
  have hready : Ready u.funcHelper = true := by rw [hhelper]; rfl
  have hrun := run_ready (.free add) hready addCommand (replyHeader standard addCommand) u.world
  refine ⟨_, by rw [step, hu], ?_, rfl, ⟨_, _, hu⟩, ?_⟩
  · simp [hrun]
  · exact ⟨_, by rw [hrun, finish_entered]⟩

theorem entered_was_bound_add :
    ∃ (pre : List (Move (Shared standard Unit) (Act standard Unit)))
      (m : Move (Shared standard Unit) (Act standard Unit)), m.post.entered ≠ m.pre.entered ∧
      ∃ i data func, Enters m i data func ∧ LookedBound i data func pre := by
  obtain ⟨ms, u, hp, hhelper, hlooked, -⟩ := lookedUp_run
  obtain ⟨v, hv, hne, -⟩ := call_enters hhelper hlooked
  exact ⟨ms, ⟨u, .call 0, v⟩, hne, entered_was_bound (hp.snoc hv) rfl hne⟩

/-- unregisterMethod returns 0 between the look-up and the call. -/
theorem entered_unregistered :
    ¬∀ (io : IoModule Member) (kernel : Kernel) (helper : FunctionHelper) (w : Unit)
      (ms : List (Move (Shared standard Unit) (Act standard Unit))) (u : Shared standard Unit),
      Path step (new io kernel helper w) ms u →
      ∀ pre m post i data func, ms = pre ++ m :: post → Enters m i data func →
        Bound (readName standard data).1 func pre ∧ Running pre := by
  intro hall
  obtain ⟨ms, u, hp, hhelper, hlooked, hbound⟩ := lookedUp_run
  obtain ⟨v, hv, -, henters⟩ := call_enters
    (u := u.setImpl (u.entry.unregisterMethod addName.1).1.serviceImpl) hhelper hlooked
  have hpath := (hp.snoc (a := .unregisterMethod addName.1) rfl).snoc hv
  have hlive := hall _ _ _ _ _ _ hpath _ _ [] 0 addCommand (.free add) rfl henters
  rcases hlive.1.last with hregisters | hnot
  · cases hregisters.1
  · have hspec := unregisterMethod_spec u.life.impl.toRpcServiceImpl addName.1
    exact hnot ⟨rfl, hspec.1.mpr (by simp [hbound])⟩

end DericRpc.Withdrawn
