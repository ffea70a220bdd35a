import DericRpc.Waiting
import DericRpc.Service

/-! invokeWithResultSync from end to end: the callers of one client and one service over a
transport that loses nothing, with a record of the functions that were entered. -/
namespace DericRpc.SyncCall
open ByteString Codec Common Serial Functions Service Waiting Lts

/-- The arguments of invokeWithResultSync<R>; the message id is drawn from a counter. -/
structure Call (P : MsgPack) where
  func : Str32
  Args : Type
  argsConv : Convert P.Obj Args
  args : Args
  R : Type
  resConv : Convert P.Obj R

/-- A function that was entered: for which message, and what it returned. -/
structure Execution (P : MsgPack) (W : Type) where
  id : Int32
  name : Str32
  entered : Entered P W
  value : entered.func.ReturnType

structure Sys (P : MsgPack) (W : Type) where
  client : ClientEntry := {}
  toServer : List Bytes := []
  world : W
  log : List (Execution P W) := []

inductive Act where
  | send (k : Int32)
  | caller (a : Waiting.Act)
  | serve

/-- The steps of a caller behind its send, and the IO thread's callback; the condition
variable does not wake without a notification. -/
def isLocal : Waiting.Act → Bool
  | .sendFails _ | .addItem _ | .wait _ | .resume _ | .removeItem _ | .callback _ => true
  | _ => false

variable {P : MsgPack} {W : Type}

def Call.command (c : Call P) (k : Int32) : Bytes := message P c.argsConv .command c.func k c.args

/-- The client entry sends whatever result string is not empty. -/
def reply (e : ClientEntry) (resultString : Bytes) : ClientEntry :=
  if resultString = [] then e else { e with inFlight := e.inFlight ++ [resultString] }

/-- The service takes its next message. -/
def serve (s : RpcServiceEntry P W) (u : Sys P W) (m : Bytes) (rest : List Bytes) : Sys P W :=
  let out := handleData s m [] u.world
  { client := reply u.client out.resultString
    toServer := rest
    world := out.world
    log := u.log ++ out.entered.map fun e =>
      ⟨readId P m, readName P m, e, (e.func.call e.args u.world).1⟩ }

def step (s : RpcServiceEntry P W) (calls : Int32 → Call P) (u : Sys P W) : Act → Option (Sys P W)
  | .send k => (Waiting.step P u.client (.send k)).map fun e =>
      { u with client := e, toServer := u.toServer ++ [(calls k).command k] }
  | .caller a =>
    if isLocal a = true then
      (Waiting.step P u.client a).map fun e => { u with client := e }
    else none
  | .serve =>
    match u.toServer with
    | [] => none
    | m :: rest => some (serve s u m rest)

/-- The function was entered for message `k` and its value, read as the caller's result
type, is `v`. -/
def Executed (s : RpcServiceEntry P W) (c : Call P) (k : Int32) (log : List (Execution P W))
    (v : c.R) : Prop :=
  ∃ x ∈ log, x.id = k ∧ x.name = c.func ∧
    (∃ f, s.serviceImpl.functions c.func.1 = some f ∧ x.entered.func = f.function) ∧
    ∃ ret, x.entered.func.ret = some ret ∧ c.resConv.as (ret.toObj x.value) = some v

/-- If the call of message `k` has returned 0, what it returned was computed by its
function. -/
def Truthful (s : RpcServiceEntry P W) (c : Call P) (k : Int32) (u : Sys P W) : Prop :=
  ∀ str, u.client.callers k = .returned str 0 →
    Executed s c k u.log (readData P c.resConv str)

/-- The name is bound, the closures run, and what the function returns in world `w`, if
anything, can be read as the caller's result type. -/
def Answers (s : RpcServiceEntry P W) (c : Call P) (k : Int32) (w : W) : Prop :=
  Ready s.funcHelper = true ∧ ∃ f, s.serviceImpl.functions c.func.1 = some f ∧
    ∀ ret, f.function.ret = some ret →
      (c.resConv.as (ret.toObj (f.function.call
        (readData P f.function.args (c.command k)) w).1)).isSome = true

theorem Executed.mono {s : RpcServiceEntry P W} {c : Call P} {k : Int32}
    {log log' : List (Execution P W)} {v : c.R} (h : Executed s c k log v)
    (hl : ∀ x ∈ log, x ∈ log') : Executed s c k log' v :=
  let ⟨x, hx, hrest⟩ := h
  ⟨x, hl x hx, hrest⟩

theorem step_cases {s : RpcServiceEntry P W} {calls : Int32 → Call P} {u v : Sys P W} {a : Act}
    (h : step s calls u a = some v) :
    (∃ b, Waiting.step P u.client b = some v.client ∧ (∀ k, b ≠ .spuriousWake k) ∧
      (∀ msg, b ≠ .post msg) ∧ v.log = u.log ∧
      ∀ m ∈ v.toServer, m ∈ u.toServer ∨ ∃ k, m = (calls k).command k) ∨
    ∃ m rest, u.toServer = m :: rest ∧ v = serve s u m rest := by
  cases a with
  | send k =>
    obtain ⟨e, he, rfl⟩ := Option.map_eq_some_iff.mp h
    refine .inl ⟨.send k, he, nofun, nofun, rfl, fun m hm => ?_⟩
    rcases List.mem_append.mp hm with hold | hnew
    · exact .inl hold
    · exact .inr ⟨k, List.mem_singleton.mp hnew⟩
  | caller b =>
    obtain ⟨hb, hstep⟩ := Option.ite_none_right_eq_some.mp h
    obtain ⟨e, he, rfl⟩ := Option.map_eq_some_iff.mp hstep
    refine .inl ⟨b, he, ?_, ?_, rfl, fun m hm => .inl hm⟩
    · rintro k rfl
      cases hb
    · rintro msg rfl
      cases hb
  | serve =>
    cases hq : u.toServer with
    | nil => simp [step, hq] at h
    | cons m rest =>
      obtain rfl : serve s u m rest = v := by simpa [step, hq] using h
      exact .inr ⟨m, rest, rfl, rfl⟩

theorem target_command (s : RpcServiceEntry P W) (c : Call P) (k : Int32) :
    target s (c.command k) = s.serviceImpl.functions c.func.1 := by
  rw [target, Call.command, message_eq, readType_header, readName_header,
    messageTypeOf_code, if_pos rfl]

theorem command_name (c : Call P) (k : Int32) : readName P (c.command k) = c.func :=
  readName_header P _ _ _ _

theorem command_id (c : Call P) (k : Int32) : readId P (c.command k) = k :=
  readId_header P _ _ _ _

theorem reply_id (s : RpcServiceEntry P W) (c : Call P) (k : Int32) (w : W)
    (h : (handleData s (c.command k) [] w).resultString ≠ []) :
    readType P (handleData s (c.command k) [] w).resultString =
        MessageType.replay.code ∧
      readId P (handleData s (c.command k) [] w).resultString = k := by
  obtain hnil | ⟨rest, hr⟩ := handleData_resultString s (c.command k) w
  · exact absurd hnil h
  · rw [hr, command_id]
    exact ⟨readType_header P _ _ _ _, readId_header P _ _ _ _⟩

theorem executed_of_answers {s : RpcServiceEntry P W} (hs : Accepting s) {c : Call P} {k : Int32}
    {u : Sys P W} (ha : Answers s c k u.world) (rest : List Bytes)
    (h : (handleData s (c.command k) [] u.world).resultString ≠ []) :
    Executed s c k (serve s u (c.command k) rest).log
      (readData P c.resConv (handleData s (c.command k) [] u.world).resultString) := by
  obtain ⟨hready, f, hf, hconv⟩ := ha
  have hrun := handleData_target (s := s) ⟨hs, hready⟩ ((target_command s c k).trans hf) [] u.world
  rw [command_name, command_id] at hrun
  cases hret : f.function.ret with
  | none =>
    rw [hrun, finish_void hret] at h
    exact absurd rfl h
  | some ret =>
    obtain ⟨v, hv⟩ := Option.isSome_iff_exists.mp (hconv ret hret)
    have hdata : messageData P c.resConv (handleData s (c.command k) [] u.world).resultString =
        some v := by
      rw [hrun, finish_result hret, ← hv]
      exact messageData_message P .replay c.func k ret c.resConv _
    have hentered : (handleData s (c.command k) [] u.world).entered =
        [⟨f.function, readData P f.function.args (c.command k)⟩] := by
      rw [hrun, finish_entered]
    rw [readData, hdata, Option.getD_some]
    exact ⟨⟨k, c.func, ⟨f.function, readData P f.function.args (c.command k)⟩, _⟩,
      by simp [serve, hentered, command_id, command_name], rfl, rfl, ⟨f, hf, rfl⟩, ret, hret, hv⟩

structure SysInv (s : RpcServiceEntry P W) (calls : Int32 → Call P) (k : Int32)
    (u : Sys P W) : Prop where
  client : Inv P u.client
  result : ∀ str, (u.client.callers k).result = some str → Answer P u.client k str
  toServer : ∀ m ∈ u.toServer, ∃ j, m = (calls j).command j
  replies : ∀ m, m ∈ u.client.inFlight ∨ m ∈ u.client.processed → readId P m = k →
    Executed s (calls k) k u.log (readData P (calls k).resConv m)

theorem sysInv_init (s : RpcServiceEntry P W) (calls : Int32 → Call P) (k : Int32) (w : W) :
    SysInv s calls k { world := w } where
  client := inv_init
  result _ h := nomatch h
  toServer _ h := nomatch h
  replies _ h := by rcases h with h | h <;> cases h

theorem reply_cases (e : ClientEntry) (resultString : Bytes) :
    (resultString = [] ∧ reply e resultString = e) ∨
    (resultString ≠ [] ∧ Waiting.step P e (.post resultString) = some (reply e resultString)) := by
  by_cases h : resultString = []
  · exact .inl ⟨h, if_pos h⟩
  · exact .inr ⟨h, by simp [Waiting.step, reply, h]⟩

theorem sysInv_step {s : RpcServiceEntry P W} (hs : Accepting s) {calls : Int32 → Call P}
    {k : Int32} (ha : ∀ w, Answers s (calls k) k w) {u v : Sys P W} {a : Act}
    (hi : SysInv s calls k u) (h : step s calls u a = some v) : SysInv s calls k v := by
  rcases step_cases h with ⟨b, hb, hwake, hpost, hlog, hserver⟩ | ⟨m, rest, hq, rfl⟩
  · refine ⟨step_inv hb hi.client, step_result hb hi.client (hwake k) hi.result, ?_, ?_⟩
    · intro m hm
      exact (hserver m hm).elim (hi.toServer m) id
    · intro m hm hid
      rw [hlog]
      refine hi.replies m ?_ hid
      obtain ⟨-, ⟨hf, hp⟩ | ⟨msg, rfl, -⟩ | ⟨msg, -, hin, hf, hp, -⟩⟩ := step_queues hb
      · rwa [hf, hp] at hm
      · exact absurd rfl (hpost msg)
      · rw [hf, hp] at hm
        rcases hm with hm | hm
        · exact .inl (List.mem_of_mem_erase hm)
        · rcases List.mem_append.mp hm with hold | hnew
          · exact .inr hold
          · exact .inl (List.mem_singleton.mp hnew ▸ hin)
  · obtain ⟨j, rfl⟩ := hi.toServer m (by rw [hq]; exact List.mem_cons_self)
    have hrest (m : Bytes) (hm : m ∈ rest) : ∃ j, m = (calls j).command j :=
      hi.toServer m (by rw [hq]; exact List.mem_cons_of_mem _ hm)
    have hold (m : Bytes) (hm : m ∈ u.client.inFlight ∨ m ∈ u.client.processed)
        (hid : readId P m = k) : Executed s (calls k) k
          (serve s u ((calls j).command j) rest).log (readData P (calls k).resConv m) :=
      (hi.replies m hm hid).mono fun x hx => List.mem_append_left _ hx
    rcases reply_cases (P := P) u.client (handleData s ((calls j).command j) [] u.world).resultString
      with ⟨-, hsame⟩ | ⟨hne, hpost⟩
    · exact ⟨by simpa [serve, hsame] using hi.client, by simpa [serve, hsame] using hi.result,
        hrest, fun m hm => hold m (by simpa [serve, hsame] using hm)⟩
    · refine ⟨step_inv hpost hi.client, step_result hpost hi.client nofun hi.result, hrest, ?_⟩
      intro m hm hid
      have hin : (serve s u ((calls j).command j) rest).client =
          { u.client with inFlight := u.client.inFlight ++
            [(handleData s ((calls j).command j) [] u.world).resultString] } := if_neg hne
      rw [hin] at hm
      rcases hm with hm | hm
      · rcases List.mem_append.mp hm with hm | hnew
        · exact hold m (.inl hm) hid
        · obtain rfl := List.mem_singleton.mp hnew
          obtain rfl : j = k := (reply_id s (calls j) j u.world hne).2.symm.trans hid
          exact executed_of_answers hs (ha u.world) rest hne
      · exact hold m (.inr hm) hid

theorem SysInv.truthful {s : RpcServiceEntry P W} {calls : Int32 → Call P} {k : Int32}
    {u : Sys P W} (hi : SysInv s calls k u) : Truthful s (calls k) k u := by
  intro str hstr
  obtain ⟨hm, -, hid⟩ := hi.result str (by rw [hstr]; rfl)
  exact hi.replies str (.inr hm) hid

/-- A run of steps behind the send is a run of the client within the system. -/
theorem run_caller (s : RpcServiceEntry P W) (calls : Int32 → Call P) (as : List Waiting.Act)
    (hl : ∀ a ∈ as, isLocal a = true) (u : Sys P W) :
    run (step s calls) u (as.map Act.caller) =
      (run (Waiting.step P) u.client as).map fun e => { u with client := e } := by
  induction as generalizing u with
  | nil => rfl
  | cons a as ih =>
    have ha := hl a (by simp)
    simp only [List.map_cons, run, step, if_pos ha]
    cases hstep : Waiting.step P u.client a with
    | none => rfl
    | some e =>
      simpa using ih (fun b hb => hl b (List.mem_cons_of_mem a hb)) { u with client := e }

/-- A call that the service does not answer gets a reply, but nothing it could report. -/
theorem unanswered {s : RpcServiceEntry P W} (hs : Accepting s) {c : Call P} {k : Int32}
    {u : Sys P W} (hlog : u.log = []) (h : ¬ Answers s c k u.world) (rest : List Bytes) :
    (handleData s (c.command k) [] u.world).resultString ≠ [] ∧
      ∀ v, ¬ Executed s c k (serve s u (c.command k) rest).log v := by
  have htype : messageTypeOf (readType P (c.command k)) = some .command := by
    rw [Call.command, message_eq, readType_header, messageTypeOf_code]
  by_cases hrun : Ready s.funcHelper = true ∧ ∃ f, s.serviceImpl.functions c.func.1 = some f
  · obtain ⟨hready, f, hf⟩ := hrun
    obtain ⟨ret, hret, hnone⟩ : ∃ ret, f.function.ret = some ret ∧
        ¬ (c.resConv.as (ret.toObj (f.function.call
          (readData P f.function.args (c.command k)) u.world).1)).isSome = true := by
      by_contra hne
      refine h ⟨hready, f, hf, fun ret hret => ?_⟩
      by_contra hsome
      exact hne ⟨ret, hret, hsome⟩
    have hdata := handleData_target (s := s) ⟨hs, hready⟩ ((target_command s c k).trans hf) []
      u.world
    rw [command_name, command_id] at hdata
    constructor
    · rw [hdata, finish_result hret]
      simp [header_ne_nil]
    · rintro v ⟨x, hx, -, -, -, ret', hret', hv⟩
      have hentered : (handleData s (c.command k) [] u.world).entered =
          [⟨f.function, readData P f.function.args (c.command k)⟩] := by
        rw [hdata, finish_entered]
      simp only [serve, hlog, hentered, List.nil_append, List.map_cons, List.map_nil,
        List.mem_singleton] at hx
      subst hx
      obtain rfl : ret = ret' := Option.some.inj (hret.symm.trans hret')
      exact hnone (Option.isSome_iff_exists.mpr ⟨v, hv⟩)
  · have hrefused : Ready s.funcHelper = true →
        s.serviceImpl.functions (readName P (c.command k)).1 = none := by
      intro hready
      rw [command_name]
      cases hf : s.serviceImpl.functions c.func.1 with
      | none => rfl
      | some f => exact absurd ⟨hready, f, hf⟩ hrun
    have hdata := handleData_command hs htype [] u.world
    rw [handleCommand_refused hrefused] at hdata
    constructor
    · rw [hdata]
      exact header_ne_nil P _ _ _
    · rintro v ⟨x, hx, -⟩
      simp [serve, hdata, hlog] at hx

theorem lying_run {s : RpcServiceEntry P W} (hs : Accepting s) (calls : Int32 → Call P)
    {k : Int32} {w : W} (h : ¬ Answers s (calls k) k w) :
    ∃ ms u, Path (step s calls) { world := w } ms u ∧ ¬ Truthful s (calls k) k u := by
  let m := (calls k).command k
  let sent : Sys P W := ⟨ClientEntry.move {} k .sent, [m], w, []⟩
  let served : Sys P W := serve s sent m []
  obtain ⟨hne, hlie⟩ := unanswered hs (u := sent) rfl h []
  obtain ⟨ht, hid⟩ := reply_id s (calls k) k w hne
  have hclient : served.client = { sent.client with
      inFlight := [(handleData s m [] w).resultString] } := if_neg hne
  obtain ⟨e, hrun, hreturned⟩ := reply_run (P := P) (e := served.client) (k := k)
    (by rw [hclient]; rfl) (by rw [hclient]; simp [sent]) (by rw [hclient]; rfl)
    (by rw [hclient]; exact List.mem_singleton.mpr rfl) ht hid
  have hcaller := run_caller s calls [.addItem k, .wait k,
    .callback (handleData s m [] w).resultString, .resume k, .removeItem k] (by simp [isLocal]) served
  rw [hrun] at hcaller
  obtain ⟨ms, hp, -⟩ := path_of_run hcaller
  have h1 : step s calls { world := w } (.send k) = some sent := rfl
  have h2 : step s calls sent .serve = some served := rfl
  exact ⟨_, _, ((Path.nil.snoc h1).snoc h2).append hp, fun htrue => hlie _ (htrue _ hreturned)⟩

/-- A call never reports more than its function computed, in any run with any other calls,
exactly when the service answers it. -/
theorem truthful_iff_answers (s : RpcServiceEntry P W) (hs : Accepting s)
    (calls : Int32 → Call P) (k : Int32) :
    (∀ w ms u, Path (step s calls) { world := w } ms u → Truthful s (calls k) k u) ↔
      ∀ w, Answers s (calls k) k w := by
  constructor
  · intro h w
    by_contra hne
    obtain ⟨ms, u, hp, hlie⟩ := lying_run hs calls hne
    exact hlie (h w ms u hp)
  · intro ha w ms u hp
    exact (hp.invariant (sysInv_init s calls k w)
      fun u a v hi hu => sysInv_step hs ha hi hu).truthful

/-- A call of the adding service under a name of the caller's choice. -/
def intCall (func : Str32) : Call standard :=
  ⟨func, Int32 × Int32 × Unit, intPair, (2, 3, ()), Int32, MessagePack.int⟩

theorem truthful_iff_answers_add :
    (∀ w ms u, Path (step addService fun _ => intCall addName) { world := w } ms u →
      Truthful addService (intCall addName) 1 u) ↔
        ∀ w, Answers addService (intCall addName) 1 w :=
  truthful_iff_answers addService addService_serving.toAccepting (fun _ => intCall addName) 1

/-- A call of a function that nobody registered returns 0 and a number. -/
theorem unknown_function_succeeds :
    ¬ ∀ (s : RpcServiceEntry standard Unit) (calls : Int32 → Call standard) (k : Int32)
      (ms : List (Move (Sys standard Unit) Act)) (u : Sys standard Unit), Accepting s →
      Path (step s calls) { world := () } ms u → Truthful s (calls k) k u := by
  intro h
  have hunknown : ¬ Answers addService (intCall emptyStr) 1 () := by
    rintro ⟨-, f, hf, -⟩
    simp [addService, intCall, emptyStr, addName, Function.update] at hf
  obtain ⟨ms, u, hp, hlie⟩ := lying_run addService_serving.toAccepting
    (fun _ => intCall emptyStr) hunknown
  exact hlie (h _ _ _ ms u addService_serving.toAccepting hp)

end DericRpc.SyncCall
