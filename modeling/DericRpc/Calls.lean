import DericRpc.Network

/-! Calls through the whole system, in every run of any number of processes with any peers beside
them, as long as the callers of a process take turns in sending and messages fit a frame: what the
service has done, what every client has got of it, and what a synchronous call returns. -/
namespace DericRpc.Calls
open ByteString Common Serial Functions Service Connection Framing SyncCall Lts Simulation Exchange
open Wires Remote Network
variable {P : MsgPack} {W C N : Type}

/-- Connected, with nothing under way and no call made yet. -/
structure Established (foreign : C → Bool) (u : Sys P W C N) : Prop where
  past : u.past = []
  clients : u.clients = {}
  impl : ∀ c, foreign c = false → ∃ conn, (u.impl c).ioConnection = some conn ∧ conn.Live
  accepted : ∀ c, foreign c = false → u.accepted c ≠ none
  live : ∀ c conn, u.accepted c = some conn → conn.Live
  up : ∀ c, foreign c = false → (u.up c).content = []
  down : ∀ c, (u.down c).content = []
  serving : u.serving = none
  reading : ∀ n, u.reading n = none

variable {process : C → N} {foreign : C → Bool} {u v : Sys P W C N} {c : C}

theorem Established.refines (h : Established foreign u) :
    Refines foreign u (start (u.service, u.world)) where
  server := rfl
  past := h.past.symm
  clients := h.clients.symm
  impl := h.impl
  accepted := h.accepted
  live := h.live
  up := h.up
  down := h.down
  commands _ := List.forall_mem_nil _
  replies _ := List.forall_mem_nil _
  others _ _ := rfl

/-- The service is where it would be had it handled its history by itself, one message after the
other. Of a client's commands those handled are the first, in the order of the calls, and the
others are on their way as whole frames; and so it is with the replies on their way back. -/
structure InOrder (foreign : C → Bool) [DecidableEq C] (s : RpcServiceEntry P W × W)
    (u : Sys P W C N) : Prop where
  service : (u.service, u.world) = (server P W).after s u.past
  commands : ∀ c, foreign c = false → ∃ queued, (u.up c).content = frames queued ∧
    requests c u.past ++ queued = (u.clients.calls c).map Issued.command
  replies : ∀ c, foreign c = false → ∃ queued, (u.down c).content = frames queued ∧
    (u.clients.entry c).processed ++ queued = (server P W).replies c s u.past

variable [DecidableEq C] [DecidableEq N] {ms : List (Move (Sys P W C N) (Network.Act P W C))}

omit [DecidableEq N] in
theorem inOrder_of_refines {s : RpcServiceEntry P W × W} {x : State P W C N}
    (hx : Refines foreign u x) (hi : Inv process foreign s x) : InOrder foreign s u where
  service := by
    rw [← hx.server, ← hx.past]
    exact hi.linear.server
  commands c hc := by
    have hissued : x.exchange.issued c = (x.clients.calls c).map Issued.command :=
      (hi.client c hc).issued
    refine ⟨x.exchange.requests c, hx.up c hc, ?_⟩
    rw [← hx.past, ← hx.clients, ← hissued]
    exact hi.linear.requests c
  replies c hc := by
    have htaken : (x.clients.entry c).processed = x.exchange.received c := (hi.client c hc).taken
    refine ⟨x.exchange.replies c, hx.down c, ?_⟩
    rw [← hx.past, ← hx.clients, htaken]
    exact hi.linear.replies c

/-- Behind every run stands one of the system above, with its invariants. -/
theorem path_refines (h0 : Established foreign u) (h : Path (Network.step process foreign) u ms v)
    (hfit : ∀ m ∈ ms, Fits process m.pre m.act) :
    ∃ x, Refines foreign v x ∧ Inv process foreign (u.service, u.world) x :=
  step_refines.invariant (fun _ _ _ hi hs => Remote.step_inv hi hs) h h0.refines (inv_start _) hfit

/-- No condition variable wakes without a notification. -/
def NoSpuriousWake : Network.Act P W C → Prop
  | .caller _ (.spuriousWake _) => False
  | _ => True

omit [DecidableEq C] [DecidableEq N] in
theorem acts_notified {m : Move (Sys P W C N) (Network.Act P W C)} (h : NoSpuriousWake m.act) :
    ∀ a ∈ acts foreign m, Notified a := by
  obtain ⟨u, a, v⟩ := m
  intro b hb
  cases a with
  | invoke c call sync fails =>
    rw [List.mem_singleton.mp hb]
    trivial
  | caller c a =>
    rw [List.mem_singleton.mp hb]
    cases a with
    | spuriousWake k => exact h
    | _ => trivial
  | change l =>
    rw [List.mem_singleton.mp hb]
    trivial
  | serve c =>
    simp only [acts] at hb
    split at hb
    · split_ifs at hb
      · obtain rfl | hb := List.mem_cons.mp hb
        · trivial
        · rw [List.mem_singleton.mp hb]
          trivial
      · rw [List.mem_singleton.mp hb]
        trivial
    · cases hb
  | receive c =>
    simp only [acts] at hb
    split_ifs at hb
    · rw [List.mem_singleton.mp hb]
      trivial
    · cases hb
  | arriveUp c n => cases hb
  | arriveDown c n => cases hb
  | write c b => cases hb

theorem path_truthful (h0 : Established foreign u)
    (h : Path (Network.step process foreign) u ms v)
    (hfit : ∀ m ∈ ms, Fits process m.pre m.act) (hwake : ∀ m ∈ ms, NoSpuriousWake m.act) :
    ∃ x, Refines foreign v x ∧ Truthful process foreign (u.service, u.world) x := by
  obtain ⟨x, hrun, hx⟩ := step_refines.path h h0.refines hfit
  refine ⟨x, hx, run_guarded (fun _ _ _ hi ha hs => step_truthful hi ha hs) hrun ?_
    (truthful_start _)⟩
  intro b hb
  obtain ⟨m, hm, hb⟩ := List.mem_flatMap.mp hb
  exact acts_notified (hwake m hm) b hb

/-- In every such run without spurious wakeups, a synchronous call that has returned 0 was handled
by the service at exactly one place of its history, the string it returned is the reply that the
service made there, and what is read from it is what the function bound to its name returned
there, in its turn; or the default of its type, where there was no such value. -/
theorem returned_value (h0 : Established foreign u)
    (h : Path (Network.step process foreign) u ms v)
    (hfit : ∀ m ∈ ms, Fits process m.pre m.act) (hwake : ∀ m ∈ ms, NoSpuriousWake m.act)
    (hs : Accepting u.service) (hc : foreign c = false) {k : Int32} {str : Bytes}
    (hk : (v.clients.entry c).callers k = .returned str 0) :
    ∃ i ∈ v.clients.calls c, i.msgId = k ∧ ∃ pre,
      Reply (u.service, u.world) v.past c i str pre ∧
      readData P i.call.resConv str =
        (value ((server P W).after (u.service, u.world) pre) i).getD i.call.resConv.init := by
  obtain ⟨x, hx, htrue⟩ := path_truthful h0 h hfit hwake
  rw [← hx.clients] at hk ⊢
  rw [← hx.past]
  have hanswer := htrue.answered c hc k str (by
    change ((x.clients.entry c).callers k).result = some str
    rw [hk]
    rfl)
  obtain ⟨i, hi, hid, pre, hreply⟩ := htrue.reply hs hc hanswer
  refine ⟨i, hi, hid, pre, hreply, ?_⟩
  rw [readData, hreply.value]

/-- Not notified, and with no result. -/
def Unanswered (p : Waiting.Phase) : Prop := p.result = none ∧ p ≠ .waiting true

/-- In every such run without spurious wakeups, a synchronous call of a function without a result
does not return: once the service has handled its command, and for good, the caller is neither notified
nor given anything, whatever arrives. -/
theorem void_call_never_returns (h0 : Established foreign u)
    (h : Path (Network.step process foreign) u ms v)
    (hfit : ∀ m ∈ ms, Fits process m.pre m.act) (hwake : ∀ m ∈ ms, NoSpuriousWake m.act)
    (hs : Serving u.service) (hc : foreign c = false) {i : Issued P}
    (hi : i ∈ v.clients.calls c) {pre post : List (Event C (Change P W) Bytes)}
    (hpast : v.past = pre ++ .handled c i.command :: post) {f : Registered P W}
    (hf : ((server P W).after (u.service, u.world) pre).1.serviceImpl.functions i.call.func.1 =
      some f) (hvoid : f.function.ret = none) :
    Unanswered ((v.clients.entry c).callers i.msgId) := by
  obtain ⟨x, hx, htrue⟩ := path_truthful h0 h hfit hwake
  rw [← hx.past] at hpast
  rw [← hx.clients] at hi ⊢
  have hsilent : ((server P W).handle ((server P W).after (u.service, u.world) pre)
      i.command).2 = none := handle_void (after_serving hs pre) i hf hvoid
  have hnone (str : Bytes) : ¬Waiting.Answer P (x.clients.entry c) i.msgId str :=
    htrue.no_answer hs.toAccepting hc hi hpast hsilent str
  constructor
  · by_contra hresult
    obtain ⟨str, hstr⟩ := Option.ne_none_iff_exists'.mp hresult
    exact hnone str (htrue.answered c hc _ str hstr)
  · intro hnotified
    have hcaller := (htrue.client c hc).entry.caller i.msgId
    change Waiting.CallerInv P (x.clients.entry c) i.msgId ((x.clients.entry c).callers i.msgId) _
      at hcaller
    rw [hnotified] at hcaller
    obtain ⟨str, -, hanswer⟩ := hcaller
    exact hnone str hanswer

/-! One client and the adding service. -/

instance (u : Sys standard Unit Unit Unit) (a : Network.Act standard Unit Unit) :
    Decidable (Fits (fun _ => ()) u a ∧ NoSpuriousWake a) := by
  have hfits : Decidable (Fits (fun _ => ()) u a) := by
    cases a <;> unfold Fits <;> infer_instance
  have hwake : Decidable (NoSpuriousWake a) := by
    unfold NoSpuriousWake
    split <;> infer_instance
  exact instDecidableAnd

def addSys : Sys standard Unit Unit Unit where
  service := addService
  world := ()
  impl _ := ⟨some (connectedTo 4)⟩
  accepted _ := some ⟨.started, [], [], 5, .server, true⟩

theorem addSys_established : Established (fun _ => false) addSys where
  past := rfl
  clients := rfl
  impl _ _ := ⟨_, rfl, rfl, by decide, rfl⟩
  accepted _ _ := Option.some_ne_none _
  live _ _ h := by
    obtain rfl := Option.some.inj h
    exact ⟨rfl, by decide, rfl⟩
  up _ _ := rfl
  down _ := rfl
  serving := rfl
  reading _ := rfl

/-- The first bytes of the command arrive alone, and the service's thread blocks on them. -/
theorem sum_run : (run (guarded (Network.step (fun _ => ()) fun _ => false)
    fun u a => Fits (fun _ => ()) u a ∧ NoSpuriousWake a) addSys
      [.invoke () (intCall addName) true false, .arriveUp () 7, .serve (),
        .caller () (.addItem 1), .caller () (.wait 1), .arriveUp () 100, .serve (),
        .arriveDown () 100, .receive (), .caller () (.resume 1),
        .caller () (.removeItem 1)]).any (fun v => decide ((v.clients.entry ()).callers 1 =
      .returned (message standard MessagePack.int .replay addName 1 5) 0)) = true := by
  decide +kernel

theorem sum_path : ∃ ms v, Path (Network.step (fun _ => ()) fun _ => false) addSys ms v ∧
    (∀ m ∈ ms, Fits (fun _ => ()) m.pre m.act ∧ NoSpuriousWake m.act) ∧
    (v.clients.entry ()).callers 1 =
      .returned (message standard MessagePack.int .replay addName 1 5) 0 := by
  obtain ⟨v, hv, hreturned⟩ := (Option.any_eq_true _ _).mp sum_run
  obtain ⟨ms, hp, hguard⟩ := (meets_of_run hv).path
  exact ⟨ms, v, hp, hguard, of_decide_eq_true hreturned⟩

/-- Two and three. -/
theorem returned_value_add : ∃ ms v, Path (Network.step (fun _ => ()) fun _ => false) addSys ms v ∧
    ∃ i ∈ v.clients.calls (), i.msgId = 1 ∧ ∃ pre,
      Reply (addService, ()) v.past () i (message standard MessagePack.int .replay addName 1 5) pre ∧
      readData standard i.call.resConv
        (message standard MessagePack.int .replay addName 1 5) =
        (value ((server standard Unit).after (addService, ()) pre) i).getD i.call.resConv.init := by
  obtain ⟨ms, v, hp, hguard, hreturned⟩ := sum_path
  exact ⟨ms, v, hp, returned_value addSys_established hp (fun m hm => (hguard m hm).1)
    (fun m hm => (hguard m hm).2) addService_serving.toAccepting rfl hreturned⟩

def note : FreeFunction standard Unit := { add with ret := none }

def noteService : RpcServiceEntry standard Unit where
  serviceImpl :=
    { state := .started, serialer := true
      functions := Function.update (fun _ => none) addName.1 (some (.free note)) }
  funcHelper := some ⟨true⟩

def noteSys : Sys standard Unit Unit Unit := { addSys with service := noteService }

theorem noteSys_established : Established (fun _ => false) noteSys :=
  { addSys_established with }

/-- The function has run, and its caller waits. -/
theorem note_run : (run (guarded (Network.step (fun _ => ()) fun _ => false)
    fun u a => Fits (fun _ => ()) u a ∧ NoSpuriousWake a) noteSys
      [.invoke () (intCall addName) true false, .caller () (.addItem 1), .caller () (.wait 1),
        .arriveUp () 107, .serve ()]).any (fun v => decide (v.past.length = 1 ∧
          requests () v.past = (v.clients.calls ()).map Issued.command ∧
          (v.clients.calls ()).map Issued.msgId = [1] ∧
          (v.clients.calls ()).map (fun i => i.call.func.1) = [addName.1])) = true := by
  decide +kernel

theorem void_call_never_returns_note : ∃ ms v,
    Path (Network.step (fun _ => ()) fun _ => false) noteSys ms v ∧
    ∃ i ∈ v.clients.calls (), v.past = [.handled () i.command] ∧
      Unanswered ((v.clients.entry ()).callers i.msgId) := by
  obtain ⟨v, hv, hmade⟩ := (Option.any_eq_true _ _).mp note_run
  obtain ⟨ms, hp, hguard⟩ := (meets_of_run hv).path
  obtain ⟨hlength, hrequests, hids, hnames⟩ := of_decide_eq_true hmade
  obtain ⟨i, hcalls⟩ : ∃ i, v.clients.calls () = [i] := by
    refine List.length_eq_one_iff.mp ?_
    rw [← List.length_map Issued.msgId, hids]
    rfl
  have hi : i ∈ v.clients.calls () := by
    rw [hcalls]
    exact List.mem_singleton.mpr rfl
  rw [hcalls] at hnames hrequests
  have hname : i.call.func.1 = addName.1 := List.singleton_inj.mp hnames
  obtain ⟨e, hpast⟩ := List.length_eq_one_iff.mp hlength
  have hrequest : requests () [e] = [i.command] := by
    rw [← hpast]
    exact hrequests
  have hhandled : v.past = [.handled () i.command] := by
    cases e with
    | handled c m =>
      obtain rfl : m = i.command := List.singleton_inj.mp hrequest
      exact hpast
    | change l => cases hrequest
  have hsplit : v.past = [] ++ .handled () i.command :: [] := hhandled
  have hbound : noteService.serviceImpl.functions i.call.func.1 = some (.free note) := by
    rw [hname]
    simp [noteService]
  exact ⟨ms, v, hp, i, hi, hhandled,
    void_call_never_returns noteSys_established hp (fun m hm => (hguard m hm).1)
      (fun m hm => (hguard m hm).2) ⟨⟨rfl, rfl⟩, rfl⟩ rfl hi hsplit hbound rfl⟩

end DericRpc.Calls
