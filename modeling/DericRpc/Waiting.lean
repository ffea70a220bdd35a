import DericRpc.Serial
import DericRpc.Lib.Lts

/-! RpcClientEntry's waiting items: callers that send a command, add an item and wait on
it, and the IO thread that hands replies to the items, as steps of the locked sections. -/
namespace DericRpc.Waiting
open ByteString Common Serial Lts

/-- Where the caller of one message id is in invokeWithResultSync. `notified` is the state
of the item's condition variable for it. -/
inductive Phase where
  | idle
  | sent
  | added
  | waiting (notified : Bool)
  | resumed (resultStr : Bytes)
  | returned (resultStr : Bytes) (res : Int)
  deriving DecidableEq

/-- notify_one on the condition variable that only this caller waits on. -/
def Phase.notify : Phase → Phase
  | .waiting _ => .waiting true
  | p => p

/-- `waitingItems` gives the msg of each item. `inFlight` holds the messages that the IO
thread has not taken yet, `processed` those it has. -/
structure ClientEntry where
  serialer : Bool := true
  waitingItems : Int32 → Option Bytes := fun _ => none
  callers : Int32 → Phase := fun _ => .idle
  inFlight : List Bytes := []
  processed : List Bytes := []

def ClientEntry.move (e : ClientEntry) (k : Int32) (p : Phase) : ClientEntry :=
  { e with callers := Function.update e.callers k p }

def ClientEntry.setItem (e : ClientEntry) (k : Int32) (item : Option Bytes) : ClientEntry :=
  { e with waitingItems := Function.update e.waitingItems k item }

def addResultWaitingItem (e : ClientEntry) (k : Int32) : ClientEntry × Int :=
  match e.waitingItems k with
  | some _ => (e, -1)
  | none => (e.setItem k (some []), 0)

def removeResultWaitingItem (e : ClientEntry) (k : Int32) : ClientEntry × Int :=
  match e.waitingItems k with
  | none => (e, -1)
  | some _ => (e.setItem k none, 0)

/-- The last two lines of _waitForResult under the lock: the result is moved out. -/
def takeResult (e : ClientEntry) (k : Int32) : ClientEntry :=
  (e.setItem k (some [])).move k (.resumed ((e.waitingItems k).getD []))

/-- `msg` is a string whose length is an int. -/
def serviceMessageCallback (P : MsgPack) (e : ClientEntry) (msg : Bytes) : ClientEntry :=
  if e.serialer = false then e
  else if readType P msg = MessageType.replay.code then
    let msgId := readId P msg
    match e.waitingItems msgId with
    | none => e
    | some _ => (e.setItem msgId (some msg)).move msgId (e.callers msgId).notify
  else e

/-- `post` puts a message into the connection, `callback` is the IO thread taking one. -/
inductive Act where
  | send (k : Int32)
  | sendFails (k : Int32)
  | addItem (k : Int32)
  | wait (k : Int32)
  | resume (k : Int32)
  | spuriousWake (k : Int32)
  | removeItem (k : Int32)
  | post (msg : Bytes)
  | callback (msg : Bytes)

def step (P : MsgPack) (e : ClientEntry) : Act → Option ClientEntry
  | .send k => if e.callers k = .idle then some (e.move k .sent) else none
  | .sendFails k => if e.callers k = .idle then some (e.move k (.returned [] (-1))) else none
  | .addItem k =>
    if e.callers k = .sent then
      let out := addResultWaitingItem e k
      if out.2 < 0 then some (out.1.move k (.returned [] (-1))) else some (out.1.move k .added)
    else none
  | .wait k =>
    if e.callers k = .added then
      -- operator[] would add an item that is not there
      some ((e.setItem k (some ((e.waitingItems k).getD []))).move k (.waiting false))
    else none
  | .resume k => if e.callers k = .waiting true then some (takeResult e k) else none
  | .spuriousWake k => if e.callers k = .waiting false then some (takeResult e k) else none
  | .removeItem k =>
    match e.callers k with
    | .resumed str => some ((removeResultWaitingItem e k).1.move k (.returned str 0))
    | _ => none
  | .post msg => some { e with inFlight := e.inFlight ++ [msg] }
  | .callback msg =>
    if msg ∈ e.inFlight then
      some { serviceMessageCallback P e msg with
        inFlight := e.inFlight.erase msg, processed := e.processed ++ [msg] }
    else none

variable {P : MsgPack}

@[simp] theorem move_callers (e : ClientEntry) (k : Int32) (p : Phase) :
    (e.move k p).callers = Function.update e.callers k p := rfl
@[simp] theorem move_waitingItems (e : ClientEntry) (k : Int32) (p : Phase) :
    (e.move k p).waitingItems = e.waitingItems := rfl

/-- A processed reply to message `k`. -/
def Answer (P : MsgPack) (e : ClientEntry) (k : Int32) (msg : Bytes) : Prop :=
  msg ∈ e.processed ∧ readType P msg = MessageType.replay.code ∧ readId P msg = k

/-- All that one step can do to one caller's phase and item. -/
inductive CallerStep (P : MsgPack) (e' : ClientEntry) (a : Act) (k : Int32) :
    Phase → Option Bytes → Phase → Option Bytes → Prop
  | same (p : Phase) (item : Option Bytes) : CallerStep P e' a k p item p item
  | send (item : Option Bytes) : CallerStep P e' a k .idle item .sent item
  | sendFails (item : Option Bytes) : CallerStep P e' a k .idle item (.returned [] (-1)) item
  | refused (msg : Bytes) : CallerStep P e' a k .sent (some msg) (.returned [] (-1)) (some msg)
  | added : CallerStep P e' a k .sent none .added (some [])
  | wait (item : Option Bytes) (ha : a = .wait k) :
      CallerStep P e' a k .added item (.waiting false) (some (item.getD []))
  | resume (item : Option Bytes) :
      CallerStep P e' a k (.waiting true) item (.resumed (item.getD [])) (some [])
  | spuriousWake (item : Option Bytes) (ha : a = .spuriousWake k) :
      CallerStep P e' a k (.waiting false) item (.resumed (item.getD [])) (some [])
  | removed (str : Bytes) (item : Option Bytes) :
      CallerStep P e' a k (.resumed str) item (.returned str 0) none
  | reply (p : Phase) (old msg : Bytes) (hm : Answer P e' k msg) :
      CallerStep P e' a k p (some old) p.notify (some msg)

theorem callerStep_update {e' : ClientEntry} {a : Act} {j : Int32}
    {callers : Int32 → Phase} {items : Int32 → Option Bytes} {p : Phase} {item : Option Bytes}
    (h : CallerStep P e' a j (callers j) (items j) p item) (k : Int32) :
    CallerStep P e' a k (callers k) (items k) (Function.update callers j p k)
      (Function.update items j item k) := by
  by_cases hk : k = j
  · subst hk
    simpa only [Function.update_self] using h
  · simp only [Function.update_of_ne hk]
    exact .same _ _

theorem serviceMessageCallback_cases (P : MsgPack) (e : ClientEntry) (msg : Bytes) :
    serviceMessageCallback P e msg = e ∨
    (readType P msg = MessageType.replay.code ∧
      (e.waitingItems (readId P msg)).isSome = true ∧
      serviceMessageCallback P e msg = (e.setItem (readId P msg) (some msg)).move
        (readId P msg) (e.callers (readId P msg)).notify) := by
  unfold serviceMessageCallback
  split_ifs with hs ht
  · exact .inl rfl
  · cases hi : e.waitingItems (readId P msg) with
    | none => exact .inl (by simp [hi])
    | some old => exact .inr ⟨ht, rfl, by simp [hi]⟩
  · exact .inl rfl

theorem eq_update_of_eq {items : Int32 → Option Bytes} {k : Int32} {item : Option Bytes}
    (h : items k = item) : items = Function.update items k item := by
  rw [← h, Function.update_eq_self]

theorem step_caller {e e' : ClientEntry} {a : Act} (h : step P e a = some e') (k : Int32) :
    CallerStep P e' a k (e.callers k) (e.waitingItems k) (e'.callers k) (e'.waitingItems k) := by
  have hlift {j : Int32} {p : Phase} {item : Option Bytes}
      (hc : e'.callers = Function.update e.callers j p)
      (hi : e'.waitingItems = Function.update e.waitingItems j item)
      (hj : CallerStep P e' a j (e.callers j) (e.waitingItems j) p item) :
      CallerStep P e' a k (e.callers k) (e.waitingItems k) (e'.callers k)
        (e'.waitingItems k) := by
    rw [hc, hi]
    exact callerStep_update hj k
  cases a with
  | send j =>
    obtain ⟨hp, rfl⟩ := enabled h
    exact hlift rfl (eq_update_of_eq rfl) (by rw [hp]; exact .send _)
  | sendFails j =>
    obtain ⟨hp, rfl⟩ := enabled h
    exact hlift rfl (eq_update_of_eq rfl) (by rw [hp]; exact .sendFails _)
  | addItem j =>
    obtain ⟨hp, hadd⟩ := Option.ite_none_right_eq_some.mp h
    cases hi : e.waitingItems j with
    | none =>
      obtain rfl : (e.setItem j (some [])).move j .added = e' := by
        simpa [addResultWaitingItem, hi] using hadd
      exact hlift rfl rfl (by rw [hp, hi]; exact .added)
    | some msg =>
      obtain rfl : e.move j (.returned [] (-1)) = e' := by
        simpa [addResultWaitingItem, hi] using hadd
      exact hlift rfl (eq_update_of_eq hi) (by rw [hp, hi]; exact .refused msg)
  | wait j =>
    obtain ⟨hp, rfl⟩ := enabled h
    exact hlift rfl rfl (by rw [hp]; exact .wait _ rfl)
  | resume j =>
    obtain ⟨hp, rfl⟩ := enabled h
    exact hlift rfl rfl (by rw [hp]; exact .resume _)
  | spuriousWake j =>
    obtain ⟨hp, rfl⟩ := enabled h
    exact hlift rfl rfl (by rw [hp]; exact .spuriousWake _ rfl)
  | removeItem j =>
    cases hp : e.callers j with
    | resumed str =>
      cases hi : e.waitingItems j with
      | none =>
        obtain rfl : e.move j (.returned str 0) = e' := by
          simpa [step, hp, removeResultWaitingItem, hi] using h
        exact hlift rfl (eq_update_of_eq hi)
          (by rw [hp]; exact .removed str _)
      | some msg =>
        obtain rfl : (e.setItem j none).move j (.returned str 0) = e' := by
          simpa [step, hp, removeResultWaitingItem, hi] using h
        exact hlift rfl rfl (by rw [hp]; exact .removed str _)
    | _ => simp [step, hp] at h
  | post msg =>
    obtain rfl : { e with inFlight := e.inFlight ++ [msg] } = e' := by simpa [step] using h
    exact .same _ _
  | callback msg =>
    obtain ⟨hm, rfl⟩ := enabled h
    rcases serviceMessageCallback_cases P e msg with hsame | ⟨htype, hitem, hnotify⟩
    · rw [hsame]
      exact .same _ _
    · obtain ⟨old, hold⟩ := Option.isSome_iff_exists.mp hitem
      rw [hnotify]
      exact callerStep_update (j := readId P msg) (by
        rw [hold]
        exact .reply _ old msg ⟨by simp, htype, rfl⟩) k

theorem step_queues {e e' : ClientEntry} {a : Act} (h : step P e a = some e') :
    e'.serialer = e.serialer ∧
      ((e'.inFlight = e.inFlight ∧ e'.processed = e.processed) ∨
      (∃ msg, a = .post msg ∧ e'.inFlight = e.inFlight ++ [msg] ∧ e'.processed = e.processed) ∨
      ∃ msg, a = .callback msg ∧ msg ∈ e.inFlight ∧ e'.inFlight = e.inFlight.erase msg ∧
        e'.processed = e.processed ++ [msg] ∧
        e'.callers = (serviceMessageCallback P e msg).callers) := by
  cases a with
  | send j =>
    obtain ⟨-, rfl⟩ := enabled h
    exact ⟨rfl, .inl ⟨rfl, rfl⟩⟩
  | sendFails j =>
    obtain ⟨-, rfl⟩ := enabled h
    exact ⟨rfl, .inl ⟨rfl, rfl⟩⟩
  | addItem j =>
    obtain ⟨-, hadd⟩ := Option.ite_none_right_eq_some.mp h
    cases hi : e.waitingItems j <;> simp [addResultWaitingItem, hi] at hadd <;> subst hadd <;>
      exact ⟨rfl, .inl ⟨rfl, rfl⟩⟩
  | wait j =>
    obtain ⟨-, rfl⟩ := enabled h
    exact ⟨rfl, .inl ⟨rfl, rfl⟩⟩
  | resume j =>
    obtain ⟨-, rfl⟩ := enabled h
    exact ⟨rfl, .inl ⟨rfl, rfl⟩⟩
  | spuriousWake j =>
    obtain ⟨-, rfl⟩ := enabled h
    exact ⟨rfl, .inl ⟨rfl, rfl⟩⟩
  | removeItem j =>
    cases hp : e.callers j with
    | resumed str =>
      cases hi : e.waitingItems j <;> simp [step, hp, removeResultWaitingItem, hi] at h <;>
        subst h <;> exact ⟨rfl, .inl ⟨rfl, rfl⟩⟩
    | _ => simp [step, hp] at h
  | post msg =>
    obtain rfl : { e with inFlight := e.inFlight ++ [msg] } = e' := by simpa [step] using h
    exact ⟨rfl, .inr (.inl ⟨msg, rfl, rfl, rfl⟩)⟩
  | callback msg =>
    obtain ⟨hm, rfl⟩ := enabled h
    have hserialer : (serviceMessageCallback P e msg).serialer = e.serialer := by
      rcases serviceMessageCallback_cases P e msg with hsame | ⟨-, -, hnotify⟩
      · rw [hsame]
      · rw [hnotify]; rfl
    exact ⟨hserialer, .inr (.inr ⟨msg, rfl, hm, rfl, rfl, rfl⟩)⟩

theorem step_processed_mono {e e' : ClientEntry} {a : Act} (h : step P e a = some e')
    {msg : Bytes} (hm : msg ∈ e.processed) : msg ∈ e'.processed := by
  obtain ⟨-, ⟨-, hp⟩ | ⟨_, -, -, hp⟩ | ⟨_, -, -, -, hp, -⟩⟩ := step_queues h <;> rw [hp]
  · exact hm
  · exact hm
  · exact List.mem_append_left _ hm

/-- What a caller's item holds in each phase, and what the caller has taken from it. -/
def CallerInv (P : MsgPack) (e : ClientEntry) (k : Int32) : Phase → Option Bytes → Prop
  | .idle, item | .sent, item => item = none
  | .added, item | .waiting false, item => ∃ msg, item = some msg ∧ (msg = [] ∨ Answer P e k msg)
  | .waiting true, item => ∃ msg, item = some msg ∧ Answer P e k msg
  | .resumed str, item => item.isSome = true ∧ (str = [] ∨ Answer P e k str)
  | .returned str _, item => item = none ∧ (str = [] ∨ Answer P e k str)

structure Inv (P : MsgPack) (e : ClientEntry) : Prop where
  serialer : e.serialer = true
  caller : ∀ k, CallerInv P e k (e.callers k) (e.waitingItems k)

theorem inv_init : Inv P {} := ⟨rfl, fun _ => rfl⟩

theorem CallerInv.mono {e e' : ClientEntry} {k : Int32} {p : Phase} {item : Option Bytes}
    (h : CallerInv P e k p item) (hm : ∀ msg ∈ e.processed, msg ∈ e'.processed) :
    CallerInv P e' k p item := by
  have hanswer {msg : Bytes} (ha : Answer P e k msg) : Answer P e' k msg := ⟨hm msg ha.1, ha.2⟩
  cases p with
  | idle => exact h
  | sent => exact h
  | added =>
    obtain ⟨msg, hi, hmsg⟩ := h
    exact ⟨msg, hi, hmsg.imp_right hanswer⟩
  | waiting b =>
    cases b with
    | false =>
      obtain ⟨msg, hi, hmsg⟩ := h
      exact ⟨msg, hi, hmsg.imp_right hanswer⟩
    | true =>
      obtain ⟨msg, hi, hmsg⟩ := h
      exact ⟨msg, hi, hanswer hmsg⟩
  | resumed str => exact ⟨h.1, h.2.imp_right hanswer⟩
  | returned str res => exact ⟨h.1, h.2.imp_right hanswer⟩

theorem CallerInv.step {e' : ClientEntry} {a : Act} {k : Int32} {p p' : Phase}
    {item item' : Option Bytes} (hs : CallerStep P e' a k p item p' item')
    (h : CallerInv P e' k p item) : CallerInv P e' k p' item' := by
  cases hs with
  | same => exact h
  | send => exact h
  | sendFails => exact ⟨h, .inl rfl⟩
  | refused => cases h
  | added => exact ⟨[], rfl, .inl rfl⟩
  | wait =>
    obtain ⟨msg, rfl, hmsg⟩ := h
    exact ⟨msg, rfl, hmsg⟩
  | resume =>
    obtain ⟨msg, rfl, hmsg⟩ := h
    exact ⟨rfl, .inr hmsg⟩
  | spuriousWake =>
    obtain ⟨msg, rfl, hmsg⟩ := h
    exact ⟨rfl, hmsg⟩
  | removed => exact ⟨rfl, h.2⟩
  | reply p old msg hm =>
    cases p with
    | idle => cases h
    | sent => cases h
    | added => exact ⟨msg, rfl, .inr hm⟩
    | waiting b => exact ⟨msg, rfl, hm⟩
    | resumed str => exact ⟨rfl, h.2⟩
    | returned str res => cases h.1

/-- Items are there for exactly the callers between adding and removing, and hold nothing
but replies to their own messages, in every run. -/
theorem step_inv {e e' : ClientEntry} {a : Act} (h : step P e a = some e') (hi : Inv P e) :
    Inv P e' :=
  ⟨(step_queues h).1.trans hi.serialer, fun k =>
    ((hi.caller k).mono fun _ hm => step_processed_mono h hm).step (step_caller h k)⟩

/-- The string that _waitForResult gives its caller, once it has one. -/
def Phase.result : Phase → Option Bytes
  | .resumed str => some str
  | .returned str res => if res = 0 then some str else none
  | _ => none

/-- A result that does not come from a spurious wakeup is a processed reply. -/
theorem step_result {e e' : ClientEntry} {a : Act} (h : step P e a = some e') (hi : Inv P e)
    {k : Int32} (ha : a ≠ .spuriousWake k)
    (hr : ∀ str, (e.callers k).result = some str → Answer P e k str) :
    ∀ str, (e'.callers k).result = some str → Answer P e' k str := by
  have hc := (hi.caller k).mono fun _ hm => step_processed_mono h hm
  have hkeep (str : Bytes) (hs : (e.callers k).result = some str) : Answer P e' k str :=
    ⟨step_processed_mono h (hr str hs).1, (hr str hs).2⟩
  have hstep := step_caller h k
  generalize e.callers k = p, e.waitingItems k = item, e'.callers k = p',
    e'.waitingItems k = item' at hc hkeep hstep
  cases hstep with
  | same => exact hkeep
  | resume =>
    obtain ⟨msg, rfl, hmsg⟩ := hc
    intro str hs
    obtain rfl : msg = str := by simpa [Phase.result] using hs
    exact hmsg
  | spuriousWake item ha' => exact absurd ha' ha
  | removed str item =>
    intro str' hs
    exact hkeep str' (by simpa [Phase.result] using hs)
  | reply p => cases p <;> exact hkeep
  | _ => simp [Phase.result]

/-- A caller that is on its way to the wait while its reply is still in flight can be
handed that reply. -/
theorem reply_run {e : ClientEntry} {k : Int32} {msg : Bytes} (hserialer : e.serialer = true)
    (hphase : e.callers k = .sent) (hitem : e.waitingItems k = none) (hin : msg ∈ e.inFlight)
    (ht : readType P msg = MessageType.replay.code) (hid : readId P msg = k) :
    ∃ e', run (step P) e [.addItem k, .wait k, .callback msg, .resume k, .removeItem k] =
      some e' ∧ e'.callers k = .returned msg 0 := by
  subst hid
  simp [run, step, hphase, addResultWaitingItem, hitem, ClientEntry.move, ClientEntry.setItem,
    hin, serviceMessageCallback, hserialer, ht, Phase.notify, takeResult,
    removeResultWaitingItem]

/-! Lost replies. -/

/-- The connection delivers replies only, and only to messages that were sent. -/
def RepliesToSent (P : MsgPack) (e : ClientEntry) : Act → Prop
  | .post msg => readType P msg = MessageType.replay.code ∧
      e.callers (readId P msg) ≠ .idle
  | _ => True

/-- A reply is taken only when its caller is not on its way to the wait. -/
def AfterWait (P : MsgPack) (e : ClientEntry) : Act → Prop
  | .callback msg => e.callers (readId P msg) ≠ .sent ∧
      e.callers (readId P msg) ≠ .added
  | _ => True

/-- The reply to `k` was processed, and its caller waits for it without a notification or
is going to. -/
def LostReply (P : MsgPack) (e : ClientEntry) (k : Int32) : Prop :=
  (∃ msg, Answer P e k msg) ∧
    (e.callers k = .sent ∨ e.callers k = .added ∨ e.callers k = .waiting false)

def Phase.Heard : Phase → Prop
  | .waiting true | .resumed _ | .returned _ _ => True
  | _ => False

structure SentInv (P : MsgPack) (e : ClientEntry) : Prop where
  inv : Inv P e
  inFlight : ∀ msg ∈ e.inFlight, readType P msg = MessageType.replay.code ∧
    e.callers (readId P msg) ≠ .idle

def HeardAll (P : MsgPack) (e : ClientEntry) : Prop :=
  ∀ msg ∈ e.processed, (e.callers (readId P msg)).Heard

theorem CallerStep.ne_idle {e' : ClientEntry} {a : Act} {k : Int32} {p p' : Phase}
    {item item' : Option Bytes} (hs : CallerStep P e' a k p item p' item') (h : p ≠ .idle) :
    p' ≠ .idle := by
  cases hs with
  | same => exact h
  | reply => cases p <;> simp_all [Phase.notify]
  | _ => simp

theorem CallerStep.heard {e' : ClientEntry} {a : Act} {k : Int32} {p p' : Phase}
    {item item' : Option Bytes} (hs : CallerStep P e' a k p item p' item') (h : p.Heard) :
    p'.Heard := by
  cases hs with
  | same => exact h
  | reply => cases p <;> first | exact h | trivial
  | sendFails => trivial
  | refused => trivial
  | resume => trivial
  | spuriousWake => trivial
  | removed => trivial
  | _ => cases h

theorem step_sentInv {e e' : ClientEntry} {a : Act} (hi : SentInv P e)
    (ha : RepliesToSent P e a) (h : step P e a = some e') : SentInv P e' := by
  refine ⟨step_inv h hi.inv, fun msg hm => ?_⟩
  have hkeep (hold : readType P msg = MessageType.replay.code ∧
      e.callers (readId P msg) ≠ .idle) :
      readType P msg = MessageType.replay.code ∧
        e'.callers (readId P msg) ≠ .idle :=
    ⟨hold.1, (step_caller h _).ne_idle hold.2⟩
  obtain ⟨-, ⟨hq, -⟩ | ⟨new, rfl, hq, -⟩ | ⟨_, -, -, hq, -, -⟩⟩ := step_queues h <;>
    rw [hq] at hm
  · exact hkeep (hi.inFlight msg hm)
  · rcases List.mem_append.mp hm with hold | hnew
    · exact hkeep (hi.inFlight msg hold)
    · obtain rfl := List.mem_singleton.mp hnew
      exact hkeep ha
  · exact hkeep (hi.inFlight msg (List.mem_of_mem_erase hm))

theorem callback_waiting {e : ClientEntry} (hi : Inv P e) {msg : Bytes} {b : Bool}
    (ht : readType P msg = MessageType.replay.code)
    (hw : e.callers (readId P msg) = .waiting b) :
    (serviceMessageCallback P e msg).callers (readId P msg) = .waiting true := by
  have hc := hi.caller (readId P msg)
  rw [hw] at hc
  obtain ⟨old, hold⟩ : ∃ old, e.waitingItems (readId P msg) = some old := by
    cases b with
    | false => exact hc.imp fun _ h => h.1
    | true => exact hc.imp fun _ h => h.1
  simp [serviceMessageCallback, hi.serialer, ht, hold, hw, Phase.notify]

theorem callback_before_wait {e : ClientEntry} {msg : Bytes} {p : Phase}
    (hp : e.callers (readId P msg) = p) (h : p = .sent ∨ p = .added) :
    (serviceMessageCallback P e msg).callers (readId P msg) = p := by
  rcases serviceMessageCallback_cases P e msg with hsame | ⟨-, -, hnotify⟩
  · rw [hsame, hp]
  · rw [hnotify]
    rcases h with rfl | rfl <;> simp [hp, Phase.notify]

theorem step_heardAll {e e' : ClientEntry} {a : Act} (hi : SentInv P e) (hh : HeardAll P e)
    (ha : AfterWait P e a) (h : step P e a = some e') : HeardAll P e' := by
  intro msg hm
  have hkeep (hold : msg ∈ e.processed) : (e'.callers (readId P msg)).Heard :=
    (step_caller h _).heard (hh msg hold)
  obtain ⟨-, ⟨-, hq⟩ | ⟨_, -, -, hq⟩ | ⟨new, rfl, hnew, -, hq, hcallers⟩⟩ := step_queues h
  · exact hkeep (hq ▸ hm)
  · exact hkeep (hq ▸ hm)
  · rw [hq] at hm
    rcases List.mem_append.mp hm with hold | hlast
    · exact hkeep hold
    · obtain rfl := List.mem_singleton.mp hlast
      obtain ⟨htype, hidle⟩ := hi.inFlight msg hnew
      cases hp : e.callers (readId P msg) with
      | idle => exact absurd hp hidle
      | sent => exact absurd hp ha.1
      | added => exact absurd hp ha.2
      | waiting b =>
        rw [hcallers, callback_waiting hi.inv htype hp]
        trivial
      | resumed str => exact (step_caller h _).heard (by rw [hp]; trivial)
      | returned str res => exact (step_caller h _).heard (by rw [hp]; trivial)

theorem HeardAll.not_lostReply {e : ClientEntry} (h : HeardAll P e) (k : Int32) :
    ¬ LostReply P e k := by
  rintro ⟨⟨msg, hm, -, rfl⟩, hp⟩
  have hheard := h msg hm
  rcases hp with hp | hp | hp <;> rw [hp] at hheard <;> cases hheard

theorem callback_lostReply {e e' : ClientEntry} {msg : Bytes} (hi : SentInv P e)
    (h : step P e (.callback msg) = some e') (ha : ¬ AfterWait P e (.callback msg)) :
    LostReply P e' (readId P msg) := by
  obtain ⟨hin, rfl⟩ := enabled h
  have hp : e.callers (readId P msg) = .sent ∨ e.callers (readId P msg) = .added := by
    by_contra hne
    exact ha (not_or.mp hne)
  have hsame := callback_before_wait rfl hp
  exact ⟨⟨msg, by simp, (hi.inFlight msg hin).1, rfl⟩,
    hp.imp hsame.trans fun hadded => .inl (hsame.trans hadded)⟩

/-- In every run: no reply is ever lost exactly when every reply is taken after its caller
has entered the wait. -/
theorem no_lost_reply_iff {ms : List (Move ClientEntry Act)} {e : ClientEntry}
    (h : Path (step P) {} ms e) (hreplies : ∀ m ∈ ms, RepliesToSent P m.pre m.act) :
    (∀ m ∈ ms, ∀ k, ¬ LostReply P m.post k) ↔ ∀ m ∈ ms, AfterWait P m.pre m.act := by
  have hinit : SentInv P {} := ⟨inv_init, fun _ hm => nomatch hm⟩
  have hstep (u : ClientEntry) (a : Act) (v : ClientEntry) (hu : SentInv P u)
      (ha : RepliesToSent P u a) (hv : step P u a = some v) : SentInv P v :=
    step_sentInv hu ha hv
  constructor
  · intro hnone m hm
    obtain ⟨hpre, -, hst⟩ := h.guarded_move hinit hstep hreplies hm
    obtain ⟨u, a, v⟩ := m
    cases a with
    | callback msg =>
      by_contra hafter
      exact hnone _ hm _ (callback_lostReply hpre hst hafter)
    | _ => trivial
  · intro hafter m hm
    have hboth := h.guarded_move (I := fun e => SentInv P e ∧ HeardAll P e)
      (G := fun e a => RepliesToSent P e a ∧ AfterWait P e a)
      ⟨hinit, fun _ hm => nomatch hm⟩
      (fun u a v hu ha hv => ⟨step_sentInv hu.1 ha.1 hv, step_heardAll hu.1 hu.2 ha.2 hv⟩)
      (fun x hx => ⟨hreplies x hx, hafter x hx⟩) hm
    exact hboth.2.1.2.not_lostReply

/-- A reply that comes right after its item was added leaves the caller waiting for ever. -/
theorem lost_run (P : MsgPack) {msg : Bytes}
    (ht : readType P msg = MessageType.replay.code) :
    ∃ ms e, Path (step P) {} ms e ∧ (∀ m ∈ ms, RepliesToSent P m.pre m.act) ∧
      LostReply P e (readId P msg) := by
  let k := readId P msg
  let e1 : ClientEntry := ClientEntry.move {} k .sent
  let e2 : ClientEntry := (e1.setItem k (some [])).move k .added
  let e3 : ClientEntry := { e2 with inFlight := [msg] }
  let e4 : ClientEntry :=
    { serviceMessageCallback P e3 msg with inFlight := [], processed := [msg] }
  let e5 : ClientEntry := (e4.setItem k (some ((e4.waitingItems k).getD []))).move k
    (.waiting false)
  have h1 : step P {} (.send k) = some e1 := rfl
  have h2 : step P e1 (.addItem k) = some e2 := by simp [step, e1, e2, addResultWaitingItem]
  have h3 : step P e2 (.post msg) = some e3 := rfl
  have h4 : step P e3 (.callback msg) = some e4 := by
    simp [step, e3, e4, e2, e1, ClientEntry.move, ClientEntry.setItem]
  have hadded : e4.callers k = .added :=
    callback_before_wait (e := e3) (by simp [e3, e2, k]) (.inr rfl)
  have h5 : step P e4 (.wait k) = some e5 := by simp [step, hadded, e5]
  refine ⟨_, e5, ((((Path.nil.snoc h1).snoc h2).snoc h3).snoc h4).snoc h5, ?_,
    ⟨msg, by simp [e5, e4, ClientEntry.move, ClientEntry.setItem], ht, rfl⟩,
    .inr (.inr (by simp [e5, k]))⟩
  intro m hm
  simp only [List.nil_append, List.cons_append, List.mem_cons, List.not_mem_nil, or_false] at hm
  rcases hm with rfl | rfl | rfl | rfl | rfl
  · trivial
  · trivial
  · exact ⟨ht, by simp [e2, k]⟩
  · trivial
  · trivial

theorem no_lost_reply_iff_early :
    ∃ ms e, Path (step standard) {} ms e ∧ (∀ m ∈ ms, RepliesToSent standard m.pre m.act) ∧
      ((∀ m ∈ ms, ∀ k, ¬ LostReply standard m.post k) ↔
        ∀ m ∈ ms, AfterWait standard m.pre m.act) := by
  obtain ⟨ms, e, hp, hreplies, -⟩ := lost_run standard
    (readType_header standard .replay emptyStr 1 [])
  exact ⟨ms, e, hp, hreplies, no_lost_reply_iff hp hreplies⟩

theorem replies_get_lost :
    ¬ ∀ (ms : List (Move ClientEntry Act)) (e : ClientEntry), Path (step standard) {} ms e →
      (∀ m ∈ ms, RepliesToSent standard m.pre m.act) → ∀ k, ¬ LostReply standard e k := by
  intro h
  obtain ⟨ms, e, hp, hreplies, hlost⟩ := lost_run standard
    (readType_header standard .replay emptyStr 1 [])
  exact h ms e hp hreplies _ hlost

end DericRpc.Waiting
