import DericRpc.Routing

/-! The message ids of a process: one counter of 32 bits for the calls of all its client entries,
each call with the steps that Waiting has for it. -/
namespace DericRpc.MessageIds
open ByteString Common Serial Lts Waiting
variable {E : Type} [DecidableEq E]

/-- invoke, or invokeWithResultSync where `sync` is set, on a client entry. -/
structure Call (E : Type) where
  entry : E
  sync : Bool
  msgId : Int32

/-- `index` is the static variable of _getMessageId. The calls are numbered in the order in
which they took their ids. -/
structure Process (E : Type) where
  index : Int32 := 0
  calls : List (Call E) := []
  phases : Nat → Phase := fun _ => .idle
  waitingItems : E → Int32 → Option Bytes := fun _ _ => none

/-- A step of a call is one of Waiting's under the id of the call; an invoke is over when it has
sent. A callback brings a reply to the command of call `n` and wakes at most one caller. -/
inductive Act (E : Type) where
  | getMessageId (entry : E) (sync : Bool)
  | invoked (n : Nat) (res : Int)
  | caller (n : Nat) (a : Waiting.Act)
  | callback (n : Nat) (msg : Bytes) (woken : Option Nat)

/-- Beyond the largest int the sum wraps, for which there is no promise in C++. -/
def getMessageId (u : Process E) : Process E × Int32 :=
  ({ u with index := u.index + 1 }, u.index + 1)

/-- The entry as call `n` sees it. -/
def Process.own (u : Process E) (n : Nat) (c : Call E) : ClientEntry where
  waitingItems := u.waitingItems c.entry
  callers := Function.update (fun _ => .idle) c.msgId (u.phases n)

def Process.setPhase (u : Process E) (n : Nat) (p : Phase) : Process E :=
  { u with phases := Function.update u.phases n p }

def Process.setItems (u : Process E) (entry : E) (items : Int32 → Option Bytes) : Process E :=
  { u with waitingItems := Function.update u.waitingItems entry items }

/-- Call `d` waits, not notified yet, on the item that a reply to `c` is for. -/
def waitsOn (u : Process E) (c : Call E) (d : Nat) : Bool :=
  (u.calls[d]?).any (fun other => decide (other.entry = c.entry ∧ other.msgId = c.msgId)) &&
    decide (u.phases d = .waiting false)

/-- What notify_one may do: it wakes one that waits on the item, if there is one. -/
def Notifies (u : Process E) (c : Call E) : Option Nat → Prop
  | some d => u.waitingItems c.entry c.msgId ≠ none ∧ waitsOn u c d = true
  | none => u.waitingItems c.entry c.msgId = none ∨
      ∀ d < u.calls.length, waitsOn u c d = false

instance (u : Process E) (c : Call E) (woken : Option Nat) : Decidable (Notifies u c woken) := by
  cases woken <;> unfold Notifies <;> infer_instance

def notify (u : Process E) : Option Nat → Process E
  | some d => u.setPhase d (.waiting true)
  | none => u

def step (P : MsgPack) (u : Process E) : Act E → Option (Process E)
  | .getMessageId entry sync =>
    let (v, msgId) := getMessageId u
    some { v.setPhase u.calls.length .idle with calls := u.calls ++ [⟨entry, sync, msgId⟩] }
  | .invoked n res => (u.calls[n]?).bind fun c =>
    if c.sync = false ∧ u.phases n = .idle then some (u.setPhase n (.returned [] res)) else none
  | .caller n a => (u.calls[n]?).bind fun c =>
    if c.sync = true ∧ Routing.caller a = some c.msgId then
      (Waiting.step P (u.own n c) a).map fun e =>
        (u.setItems c.entry e.waitingItems).setPhase n (e.callers c.msgId)
    else none
  | .callback n msg woken => (u.calls[n]?).bind fun c =>
    if u.phases n ≠ .idle ∧ readType P msg = MessageType.replay.code ∧
        readId P msg = c.msgId ∧ Notifies u c woken then
      let e : ClientEntry := { waitingItems := u.waitingItems c.entry }
      some (notify (u.setItems c.entry (serviceMessageCallback P e msg).waitingItems) woken)
    else none

variable {P : MsgPack}

def Returned : Phase → Prop
  | .returned _ _ => True
  | _ => False

/-- The counter does not overflow, a new id is not that of a synchronous call that has not
returned, and a reply wakes none but the call whose command it answers. -/
structure Distinct (m : Move (Process E) (Act E)) : Prop where
  noOverflow : ∀ entry sync, m.act = .getMessageId entry sync → m.pre.index ≠ Int32.maxValue
  fresh : ∀ entry sync, m.act = .getMessageId entry sync → ∀ n c, m.pre.calls[n]? = some c →
    c.sync = true → ¬Returned (m.pre.phases n) → c.msgId ≠ m.post.index
  woken : ∀ n msg d, m.act = .callback n msg (some d) → d = n

/-- An id is taken only while fewer than 2^31 - 1 have been. -/
def Room (u : Process E) : Act E → Prop
  | .getMessageId _ _ => u.calls.length < 2 ^ 31 - 1
  | _ => True

/-- The ids are the numbers of the calls, counted from 1, while these fit the counter. -/
structure Inv (u : Process E) : Prop where
  room : u.calls.length < 2 ^ 31
  index : u.index = Int32.ofNat u.calls.length
  ids : ∀ n c, u.calls[n]? = some c → c.msgId = Int32.ofNat (n + 1)

@[simp] theorem setItems_self (u : Process E) (entry : E) (items : Int32 → Option Bytes) :
    (u.setItems entry items).waitingItems entry = items := by simp [Process.setItems]

section
omit [DecidableEq E]

@[simp] theorem own_callers (u : Process E) (n : Nat) (c : Call E) :
    (u.own n c).callers c.msgId = u.phases n := by simp [Process.own]
@[simp] theorem setPhase_waitingItems (u : Process E) (n : Nat) (p : Phase) :
    (u.setPhase n p).waitingItems = u.waitingItems := rfl
@[simp] theorem notify_calls (u : Process E) (woken : Option Nat) :
    (notify u woken).calls = u.calls := by cases woken <;> rfl
@[simp] theorem notify_waitingItems (u : Process E) (woken : Option Nat) :
    (notify u woken).waitingItems = u.waitingItems := by cases woken <;> rfl

theorem inv_new : Inv ({} : Process E) where
  room := Nat.two_pow_pos 31
  index := rfl
  ids n c h := by cases h

theorem ofNat_eq_iff {m n : Nat} (hm : m < 2 ^ 31) (hn : n < 2 ^ 31) :
    Int32.ofNat m = Int32.ofNat n ↔ m = n := by
  rw [← Int32.toInt_inj, Int32.toInt_ofNat_of_lt hm, Int32.toInt_ofNat_of_lt hn, Nat.cast_inj]

theorem Inv.newId {u : Process E} (h : Inv u) : u.index + 1 = Int32.ofNat (u.calls.length + 1) := by
  rw [h.index, Int32.ofNat_add]
  rfl

theorem Inv.index_eq_max_iff {u : Process E} (h : Inv u) :
    u.index = Int32.maxValue ↔ u.calls.length = 2 ^ 31 - 1 := by
  have hmax : Int32.maxValue = Int32.ofNat (2 ^ 31 - 1) := by decide
  rw [h.index, hmax, ofNat_eq_iff h.room (by decide)]

theorem Inv.lt {u : Process E} (h : Inv u) {n : Nat} {c : Call E} (hc : u.calls[n]? = some c) :
    n < u.calls.length ∧ n + 1 < 2 ^ 31 := by
  obtain ⟨hlt, -⟩ := List.getElem?_eq_some_iff.mp hc
  exact ⟨hlt, Nat.lt_of_le_of_lt hlt h.room⟩

theorem Inv.unique {u : Process E} (h : Inv u) {m n : Nat} {c d : Call E}
    (hc : u.calls[m]? = some c) (hd : u.calls[n]? = some d) (hid : c.msgId = d.msgId) : m = n := by
  rw [h.ids m c hc, h.ids n d hd, ofNat_eq_iff (h.lt hc).2 (h.lt hd).2] at hid
  exact Nat.succ_inj.mp hid

end

theorem waitsOn_iff {u : Process E} {c : Call E} {d : Nat} :
    waitsOn u c d = true ↔ (∃ other, u.calls[d]? = some other ∧ other.entry = c.entry ∧
      other.msgId = c.msgId) ∧ u.phases d = .waiting false := by
  rw [waitsOn, Bool.and_eq_true, Option.any_eq_true, decide_eq_true_eq]
  simp only [decide_eq_true_eq]

/-- What a step does: it takes an id, or it leaves counter and calls alone. -/
theorem step_calls {u v : Process E} {a : Act E} (h : step P u a = some v) :
    (∃ entry sync, a = .getMessageId entry sync ∧ v.index = u.index + 1 ∧
      v.calls = u.calls ++ [⟨entry, sync, u.index + 1⟩]) ∨
    ((∀ entry sync, a ≠ .getMessageId entry sync) ∧ v.index = u.index ∧ v.calls = u.calls) := by
  cases a with
  | getMessageId entry sync =>
    obtain rfl := Option.some.inj h
    exact .inl ⟨entry, sync, rfl, rfl, rfl⟩
  | invoked n res =>
    obtain ⟨c, -, hc⟩ := Option.bind_eq_some_iff.mp h
    obtain ⟨-, rfl⟩ := enabled hc
    exact .inr ⟨fun _ _ he => (by cases he), rfl, rfl⟩
  | caller n a =>
    obtain ⟨c, -, hc⟩ := Option.bind_eq_some_iff.mp h
    obtain ⟨-, hs⟩ := Option.ite_none_right_eq_some.mp hc
    obtain ⟨e, -, rfl⟩ := Option.map_eq_some_iff.mp hs
    exact .inr ⟨fun _ _ he => (by cases he), rfl, rfl⟩
  | callback n msg woken =>
    obtain ⟨c, -, hc⟩ := Option.bind_eq_some_iff.mp h
    obtain ⟨-, rfl⟩ := enabled hc
    refine .inr ⟨fun _ _ he => (by cases he), ?_, ?_⟩ <;> cases woken <;> rfl

theorem step_inv {u v : Process E} {a : Act E} (h : Inv u) (hroom : Room u a)
    (hs : step P u a = some v) : Inv v := by
  rcases step_calls hs with ⟨entry, sync, rfl, hindex, hcalls⟩ | ⟨-, hindex, hcalls⟩
  · have hlen : v.calls.length = u.calls.length + 1 := by rw [hcalls, List.length_append]; rfl
    constructor
    · rw [hlen]
      exact Nat.add_lt_of_lt_sub hroom
    · rw [hindex, hlen, h.newId]
    · intro n c hc
      rw [hcalls] at hc
      rcases Nat.lt_or_ge n u.calls.length with hold | hnew
      · rw [List.getElem?_append_left hold] at hc
        exact h.ids n c hc
      · have hn : n < u.calls.length + 1 := by
          rw [← hlen, hcalls]
          exact (List.getElem?_eq_some_iff.mp hc).1
        obtain rfl : n = u.calls.length := Nat.le_antisymm (Nat.le_of_lt_succ hn) hnew
        rw [List.getElem?_concat_length, Option.some.injEq] at hc
        rw [← hc, ← h.newId]
  · exact ⟨hcalls ▸ h.room, by rw [hindex, hcalls, h.index], hcalls ▸ h.ids⟩

theorem callback_woken {u v : Process E} {n d : Nat} {msg : Bytes} (h : Inv u)
    (hs : step P u (.callback n msg (some d)) = some v) : d = n := by
  obtain ⟨c, hc, hrest⟩ := Option.bind_eq_some_iff.mp hs
  obtain ⟨⟨-, -, -, -, hwaits⟩, -⟩ := enabled hrest
  obtain ⟨⟨other, hother, -, hid⟩, -⟩ := waitsOn_iff.mp hwaits
  exact h.unique hother hc hid

theorem step_iff {u v : Process E} {a : Act E} (h : Inv u) (hs : step P u a = some v) :
    Distinct ⟨u, a, v⟩ ↔ Room u a := by
  have hwoken (n : Nat) (msg : Bytes) (d : Nat) (ha : a = .callback n msg (some d)) : d = n := by
    subst ha
    exact callback_woken h hs
  rcases step_calls hs with ⟨entry, sync, rfl, hindex, -⟩ | ⟨hother, -, -⟩
  · constructor
    · intro hdistinct
      have hmax := hdistinct.noOverflow entry sync rfl
      rw [ne_eq, h.index_eq_max_iff] at hmax
      exact Nat.lt_of_le_of_ne (Nat.le_sub_one_of_lt h.room) hmax
    · intro hroom
      refine ⟨fun _ _ _ hmax => ?_, fun _ _ _ n c hc _ _ hid => ?_, hwoken⟩
      · exact absurd (h.index_eq_max_iff.mp hmax) (Nat.ne_of_lt hroom)
      · obtain ⟨hn, hlt⟩ := h.lt hc
        have hnew : v.index = Int32.ofNat (u.calls.length + 1) := by rw [hindex, h.newId]
        rw [h.ids n c hc, hnew, ofNat_eq_iff hlt (Nat.add_lt_of_lt_sub hroom)] at hid
        exact absurd (Nat.succ_inj.mp hid) (Nat.ne_of_lt hn)
  · have hroom : Room u a := by
      cases a with
      | getMessageId entry sync => exact absurd rfl (hother entry sync)
      | _ => trivial
    exact iff_of_true ⟨fun entry sync ha => absurd ha (hother entry sync),
      fun entry sync ha => absurd ha (hother entry sync), hwoken⟩ hroom

/-- In every run of calls on any client entries of a process: the counter does not overflow, no
call gets the id of one that still waits for its result and no reply wakes another call,
exactly when the process takes no more than 2^31 - 1 ids. -/
theorem ids_distinct_iff {ms : List (Move (Process E) (Act E))} {v : Process E}
    (h : Path (step P) {} ms v) : (∀ m ∈ ms, Distinct m) ↔ ∀ m ∈ ms, Room m.pre m.act :=
  h.guarded_moves_iff inv_new (fun _ _ _ hi hg hs => step_inv hi hg hs) fun _ _ _ hi hs =>
    step_iff hi hs

theorem ids_distinct_iff_one : ∃ (ms : List (Move (Process Unit) (Act Unit))) (v : Process Unit),
    Path (step standard) {} ms v ∧ v.calls.length = 1 ∧
      ((∀ m ∈ ms, Distinct m) ↔ ∀ m ∈ ms, Room m.pre m.act) := by
  have hnil : Path (step standard) ({} : Process Unit) [] {} := .nil
  have hp := hnil.snoc (a := .getMessageId () true) rfl
  exact ⟨_, _, hp, rfl, ids_distinct_iff hp⟩

/-- The reply to a command that was sent may wake any call that waits under the same id. -/
theorem same_id_woken {u : Process E} {d n : Nat} {c other : Call E}
    (hother : u.calls[d]? = some other) (hentry : other.entry = c.entry)
    (hid : other.msgId = c.msgId) (hwaits : u.phases d = .waiting false)
    (hitem : u.waitingItems c.entry c.msgId ≠ none) (hc : u.calls[n]? = some c)
    (hsync : c.sync = false) (hidle : u.phases n = .idle) (msgName : Str32) (data : Bytes) :
    ∃ v w, step P u (.invoked n 0) = some v ∧
      step P v (.callback n (header P .replay msgName c.msgId ++ data) (some d)) = some w := by
  have hne : d ≠ n := by
    rintro rfl
    rw [hidle] at hwaits
    cases hwaits
  let v := u.setPhase n (.returned [] 0)
  have hinvoked : step P u (.invoked n 0) = some v := by
    rw [step, hc, Option.bind_some, if_pos ⟨hsync, hidle⟩]
  have hsent : v.phases n ≠ .idle := by
    rw [show v.phases n = .returned [] 0 from Function.update_self ..]
    exact Phase.noConfusion
  have hphase : v.phases d = .waiting false := (Function.update_of_ne hne _ _).trans hwaits
  have hcall : v.calls[n]? = some c := hc
  have hnotifies : Notifies v c (some d) :=
    ⟨hitem, waitsOn_iff.mpr ⟨⟨other, hother, hentry, hid⟩, hphase⟩⟩
  have hcallback : ∃ w, step P v
      (.callback n (header P .replay msgName c.msgId ++ data) (some d)) = some w := by
    rw [step, hcall, Option.bind_some, if_pos ⟨hsent, readType_header P _ _ _ _,
      readId_header P _ _ _ _, hnotifies⟩]
    exact ⟨_, rfl⟩
  obtain ⟨w, hcallback⟩ := hcallback
  exact ⟨v, w, hinvoked, hcallback⟩

/-- The calls, phases and items that a run leaves as they were. -/
structure Kept (u v : Process E) : Prop where
  calls : ∀ n < u.calls.length, v.calls[n]? = u.calls[n]?
  phases : ∀ n < u.calls.length, v.phases n = u.phases n
  items : v.waitingItems = u.waitingItems

omit [DecidableEq E] in
theorem Kept.trans {u v w : Process E} (h : Kept u v) (h' : Kept v w)
    (hlen : u.calls.length ≤ v.calls.length) : Kept u w where
  calls n hn := (h'.calls n (Nat.lt_of_lt_of_le hn hlen)).trans (h.calls n hn)
  phases n hn := (h'.phases n (Nat.lt_of_lt_of_le hn hlen)).trans (h.phases n hn)
  items := h'.items.trans h.items

theorem getMessageId_kept (P : MsgPack) (u : Process E) (entry : E) (sync : Bool) :
    ∃ v, step P u (.getMessageId entry sync) = some v ∧ v.index = u.index + 1 ∧
      v.calls = u.calls ++ [⟨entry, sync, u.index + 1⟩] ∧ v.phases u.calls.length = .idle ∧
      Kept u v := by
  refine ⟨_, rfl, rfl, rfl, Function.update_self .., fun n hn => ?_, fun n hn => ?_, rfl⟩
  · exact List.getElem?_append_left hn
  · exact Function.update_of_ne (Nat.ne_of_lt hn) _ _

theorem takes (P : MsgPack) (u : Process E) (entry : E) (k : Nat) :
    ∃ ms v, Path (step P) u ms v ∧ v.index = u.index + Int32.ofNat k ∧
      v.calls.length = u.calls.length + k ∧ Kept u v := by
  induction k with
  | zero => exact ⟨[], u, .nil, (Int32.add_zero _).symm, rfl, fun _ _ => rfl, fun _ _ => rfl, rfl⟩
  | succ k ih =>
    obtain ⟨ms, v, hp, hindex, hlen, hkept⟩ := ih
    obtain ⟨w, hs, hnext, hcalls, -, hkept'⟩ := getMessageId_kept P v entry false
    refine ⟨_, w, hp.snoc hs, ?_, ?_, hkept.trans hkept' (by omega)⟩
    · rw [hnext, hindex, Int32.ofNat_add, ← Int32.add_assoc]
      rfl
    · rw [hcalls, List.length_append, hlen]
      rfl

theorem first_waits : ∃ ms v, Path (step standard) ({} : Process Unit) ms v ∧ v.index = 1 ∧
    v.calls = [⟨(), true, 1⟩] ∧ v.phases 0 = .waiting false ∧ v.waitingItems () 1 = some [] := by
  have hrun : ∃ v, run (step standard) ({} : Process Unit)
      [.getMessageId () true, .caller 0 (.send 1), .caller 0 (.addItem 1), .caller 0 (.wait 1)] =
        some v ∧ v.index = 1 ∧ v.calls = [⟨(), true, 1⟩] ∧ v.phases 0 = .waiting false ∧
      v.waitingItems () 1 = some [] := ⟨_, rfl, rfl, rfl, rfl, rfl⟩
  obtain ⟨v, hv, hstate⟩ := hrun
  obtain ⟨ms, hp, -⟩ := path_of_run hv
  exact ⟨ms, v, hp, hstate⟩

/-- The counter overflows, and the reply to call 2^32 wakes call 0, which still waits. -/
theorem late_reply_wakes_first : ∃ (ms : List (Move (Process Unit) (Act Unit))) (v : Process Unit),
    Path (step standard) {} ms v ∧
    (∃ m ∈ ms, m.act = .getMessageId () false ∧ m.pre.index = Int32.maxValue ∧ ¬Distinct m) ∧
    ∃ m ∈ ms, ∃ msg, m.act = .callback (2 ^ 32) msg (some 0) ∧ ¬Distinct m := by
  obtain ⟨ms₀, u₀, hp₀, hindex₀, hcalls₀, hwaits₀, hitem₀⟩ := first_waits
  have hlen₀ : u₀.calls.length = 1 := by rw [hcalls₀]; rfl
  obtain ⟨ms₁, u₁, hp₁, hindex₁, hlen₁, hkept₁⟩ := takes standard u₀ () (2 ^ 31 - 2)
  have hmax : u₁.index = Int32.maxValue := by rw [hindex₁, hindex₀]; decide
  obtain ⟨u₂, hs₂, hindex₂, hcalls₂, -, hkept₂⟩ := getMessageId_kept standard u₁ () false
  have hlen₂ : u₂.calls.length = u₁.calls.length + 1 := by rw [hcalls₂, List.length_append]; rfl
  obtain ⟨ms₃, u₃, hp₃, hindex₃, hlen₃, hkept₃⟩ := takes standard u₂ () (2 ^ 31)
  have hzero : u₃.index + 1 = 1 := by rw [hindex₃, hindex₂, hmax]; decide
  have hlen : u₃.calls.length = 2 ^ 32 := by omega
  obtain ⟨u₄, hs₄, -, hcalls₄, hidle, hkept₄⟩ := getMessageId_kept standard u₃ () false
  have hkept : Kept u₀ u₄ := ((hkept₁.trans hkept₂ (by omega)).trans hkept₃ (by omega)).trans
    hkept₄ (by omega)
  have hfirst : u₄.calls[0]? = some ⟨(), true, 1⟩ := by
    rw [hkept.calls 0 (by omega), hcalls₀]
    rfl
  have hlast : u₄.calls[2 ^ 32]? = some ⟨(), false, 1⟩ := by
    rw [hcalls₄, ← hlen, List.getElem?_concat_length, hzero]
  have hwaits : u₄.phases 0 = .waiting false := (hkept.phases 0 (by omega)).trans hwaits₀
  have hitem : u₄.waitingItems () 1 ≠ none := by
    rw [hkept.items, hitem₀]
    exact Option.some_ne_none _
  rw [hlen] at hidle
  obtain ⟨v, w, hinvoked, hcallback⟩ := same_id_woken (P := standard) (c := ⟨(), false, 1⟩) hfirst
    rfl rfl hwaits hitem hlast rfl hidle emptyStr []
  have hover := ((((hp₀.append hp₁).snoc hs₂).append hp₃).snoc hs₄).snoc hinvoked
  refine ⟨_, w, hover.snoc hcallback, ⟨⟨u₁, .getMessageId () false, u₂⟩, by simp, rfl, hmax, ?_⟩,
    _, List.mem_append_right _ (List.mem_singleton.mpr rfl), _, rfl, ?_⟩
  · exact fun hdistinct => hdistinct.noOverflow () false rfl hmax
  · exact fun hdistinct => absurd (hdistinct.woken _ _ 0 rfl) (Nat.two_pow_pos 32).ne

/-! While the ids are distinct, each entry runs as Waiting has it, with one caller for an id. -/

/-- What a caller's step makes of another entry with the same items, where the caller is as
far: the same, as far as it reads and writes them. -/
theorem step_local {e e' f : ClientEntry} {a : Waiting.Act} {k : Int32}
    (ha : Routing.caller a = some k) (hc : f.callers k = e.callers k)
    (hi : f.waitingItems = e.waitingItems) (hs : Waiting.step P e a = some e') :
    ∃ f', Waiting.step P f a = some f' ∧ f'.callers = Function.update f.callers k (e'.callers k) ∧
      f'.waitingItems = e'.waitingItems ∧ f'.inFlight = f.inFlight ∧ f'.serialer = f.serialer := by
  cases a with
  | send j =>
    obtain rfl := Option.some.inj ha
    obtain ⟨hp, rfl⟩ := enabled hs
    exact ⟨_, if_pos (hc.trans hp), by simp, hi, rfl, rfl⟩
  | sendFails j =>
    obtain rfl := Option.some.inj ha
    obtain ⟨hp, rfl⟩ := enabled hs
    exact ⟨_, if_pos (hc.trans hp), by simp, hi, rfl, rfl⟩
  | addItem j =>
    obtain rfl := Option.some.inj ha
    obtain ⟨hp, hadd⟩ := Option.ite_none_right_eq_some.mp hs
    rw [Waiting.step, if_pos (hc.trans hp)]
    cases hitem : e.waitingItems j with
    | none =>
      obtain rfl : (e.setItem j (some [])).move j .added = e' := by
        simpa [addResultWaitingItem, hitem] using hadd
      simp [addResultWaitingItem, hi, hitem, ClientEntry.setItem, ClientEntry.move]
    | some msg =>
      obtain rfl : e.move j (.returned [] (-1)) = e' := by
        simpa [addResultWaitingItem, hitem] using hadd
      simp [addResultWaitingItem, hi, hitem, ClientEntry.move]
  | wait j =>
    obtain rfl := Option.some.inj ha
    obtain ⟨hp, rfl⟩ := enabled hs
    exact ⟨_, if_pos (hc.trans hp), by simp [ClientEntry.setItem],
      by simp [ClientEntry.setItem, hi], rfl, rfl⟩
  | resume j =>
    obtain rfl := Option.some.inj ha
    obtain ⟨hp, rfl⟩ := enabled hs
    exact ⟨_, if_pos (hc.trans hp), by simp [takeResult, ClientEntry.setItem, hi],
      by simp [takeResult, ClientEntry.setItem, hi], rfl, rfl⟩
  | spuriousWake j =>
    obtain rfl := Option.some.inj ha
    obtain ⟨hp, rfl⟩ := enabled hs
    exact ⟨_, if_pos (hc.trans hp), by simp [takeResult, ClientEntry.setItem, hi],
      by simp [takeResult, ClientEntry.setItem, hi], rfl, rfl⟩
  | removeItem j =>
    obtain rfl := Option.some.inj ha
    cases hp : e.callers j with
    | resumed str =>
      simp only [Waiting.step, hp, Option.some.injEq] at hs
      subst hs
      cases hitem : e.waitingItems j with
      | none => simp [Waiting.step, hc, hp, removeResultWaitingItem, hi, hitem, ClientEntry.move]
      | some msg =>
        simp [Waiting.step, hc, hp, removeResultWaitingItem, hi, hitem, ClientEntry.move,
          ClientEntry.setItem]
    | _ => simp [Waiting.step, hp] at hs
  | post msg => cases ha
  | callback msg => cases ha

def Owns (u : Process E) (entry : E) (n : Nat) (c : Call E) : Prop :=
  u.calls[n]? = some c ∧ c.entry = entry ∧ c.sync = true

/-- The synchronous calls of an entry under their ids, and its items. -/
structure Views (u : Process E) (entry : E) (e : ClientEntry) : Prop where
  serialer : e.serialer = true
  inFlight : e.inFlight = []
  items : e.waitingItems = u.waitingItems entry
  calls : ∀ n c, Owns u entry n c → e.callers c.msgId = u.phases n
  others : ∀ k, (∀ n c, Owns u entry n c → c.msgId ≠ k) → e.callers k = .idle

section
omit [DecidableEq E]

theorem Views.same {u v : Process E} {entry : E} {e e' : ClientEntry} (h : Views u entry e)
    (hcalls : v.calls = u.calls) (hphases : ∀ n c, Owns u entry n c → v.phases n = u.phases n)
    (hcallers : e'.callers = e.callers) (hitems : e'.waitingItems = v.waitingItems entry)
    (hserialer : e'.serialer = true) (hinFlight : e'.inFlight = []) : Views v entry e' where
  serialer := hserialer
  inFlight := hinFlight
  items := hitems
  calls n c hc := by
    rw [Owns, hcalls] at hc
    rw [hcallers, hphases n c hc]
    exact h.calls n c hc
  others k hk := by
    rw [hcallers]
    exact h.others k fun n c hc => hk n c (by rwa [Owns, hcalls])

theorem Views.update {u v : Process E} {entry : E} {e e' : ClientEntry} {n : Nat} {c : Call E}
    {p : Phase} (h : Views u entry e) (hinv : Inv u) (hown : Owns u entry n c)
    (hcalls : v.calls = u.calls) (hphases : v.phases = Function.update u.phases n p)
    (hcallers : e'.callers = Function.update e.callers c.msgId p)
    (hitems : e'.waitingItems = v.waitingItems entry) (hserialer : e'.serialer = true)
    (hinFlight : e'.inFlight = []) : Views v entry e' where
  serialer := hserialer
  inFlight := hinFlight
  items := hitems
  calls m d hd := by
    rw [Owns, hcalls] at hd
    rw [hcallers, hphases]
    by_cases hm : m = n
    · subst hm
      obtain rfl := Option.some.inj (hd.1.symm.trans hown.1)
      rw [Function.update_self, Function.update_self]
    · have hid : d.msgId ≠ c.msgId := fun hid => hm (hinv.unique hd.1 hown.1 hid)
      rw [Function.update_of_ne hid, Function.update_of_ne hm]
      exact h.calls m d hd
  others k hk := by
    have hne : k ≠ c.msgId := fun he => hk n c (by rwa [Owns, hcalls]) he.symm
    rw [hcallers, Function.update_of_ne hne]
    exact h.others k fun m d hd => hk m d (by rwa [Owns, hcalls])

theorem Views.owner {u : Process E} {entry : E} {e : ClientEntry} {k : Int32}
    (h : Views u entry e) (hk : e.callers k ≠ .idle) :
    ∃ n c, Owns u entry n c ∧ c.msgId = k ∧ e.callers k = u.phases n := by
  by_contra hnone
  push Not at hnone
  refine hk (h.others k fun n c hc hid => hnone n c hc hid ?_)
  rw [← hid, h.calls n c hc]

end

/-- A new call is idle, and no other has its id. -/
theorem Views.getMessageId {u v : Process E} {entry other : E} {sync : Bool} {e : ClientEntry}
    (h : Views u entry e) (hinv : Inv u) (hroom : Room u (.getMessageId other sync))
    (hs : step P u (.getMessageId other sync) = some v) : Views v entry e := by
  obtain rfl := Option.some.inj hs
  have hold {n : Nat} {c : Call E} (hc : u.calls[n]? = some c) :
      (u.calls ++ [⟨other, sync, u.index + 1⟩])[n]? = some c := by
    rw [List.getElem?_append_left (hinv.lt hc).1, hc]
  refine ⟨h.serialer, h.inFlight, h.items, fun n c hc => ?_, fun k hk => ?_⟩
  · obtain ⟨hc, hown⟩ := hc
    rcases Nat.lt_or_ge n u.calls.length with hn | hn
    · have hcu : u.calls[n]? = some c := by rwa [List.getElem?_append_left hn] at hc
      rw [h.calls n c ⟨hcu, hown⟩]
      exact (Function.update_of_ne (Nat.ne_of_lt hn) _ _).symm
    · have hlen := (List.getElem?_eq_some_iff.mp hc).1
      rw [List.length_append, List.length_singleton] at hlen
      obtain rfl : n = u.calls.length := Nat.le_antisymm (Nat.le_of_lt_succ hlen) hn
      rw [List.getElem?_concat_length, Option.some.injEq] at hc
      subst hc
      have hidle : Function.update u.phases u.calls.length .idle u.calls.length = .idle :=
        Function.update_self ..
      refine (h.others _ fun m d hd hid => ?_).trans hidle.symm
      obtain ⟨hm, hlt⟩ := hinv.lt hd.1
      rw [hinv.ids m d hd.1, hinv.newId, ofNat_eq_iff hlt (Nat.add_lt_of_lt_sub hroom)] at hid
      exact absurd (Nat.succ_inj.mp hid) (Nat.ne_of_lt hm)
  · exact h.others k fun n c hc => hk n c ⟨hold hc.1, hc.2⟩

theorem Views.caller {u v : Process E} {entry : E} {e : ClientEntry} {n : Nat} {a : Waiting.Act}
    (h : Views u entry e) (hinv : Inv u) (hs : step P u (.caller n a) = some v) :
    ∃ ws e', Path (Waiting.step P) e ws e' ∧ Views v entry e' := by
  obtain ⟨c, hc, hrest⟩ := Option.bind_eq_some_iff.mp hs
  obtain ⟨⟨hsync, ha⟩, hlocal⟩ := Option.ite_none_right_eq_some.mp hrest
  obtain ⟨f, hf, rfl⟩ := Option.map_eq_some_iff.mp hlocal
  by_cases hentry : c.entry = entry
  · subst hentry
    have hown : Owns u c.entry n c := ⟨hc, rfl, hsync⟩
    obtain ⟨e', he', hcallers, hitems, hinFlight, hserialer⟩ :=
      step_local ha ((h.calls n c hown).trans (own_callers u n c).symm) h.items hf
    refine ⟨_, e', Path.nil.snoc he', h.update hinv hown rfl rfl hcallers ?_
      (hserialer.trans h.serialer) (hinFlight.trans h.inFlight)⟩
    rw [hitems, setPhase_waitingItems, setItems_self]
  · refine ⟨[], e, .nil, h.same rfl (fun m d hd => ?_) rfl ?_ h.serialer h.inFlight⟩
    · refine Function.update_of_ne ?_ _ _
      rintro rfl
      rw [Option.some.inj (hc.symm.trans hd.1)] at hentry
      exact hentry hd.2.1
    · rw [h.items]
      exact (Function.update_of_ne (Ne.symm hentry) _ _).symm

/-- A reply to a call's id reaches the call's item, and who waits on it. -/
theorem serviceMessageCallback_reply {e : ClientEntry} {msg : Bytes} (hserialer : e.serialer = true)
    (htype : readType P msg = MessageType.replay.code) :
    (e.waitingItems (readId P msg) = none ∧ serviceMessageCallback P e msg = e) ∨
    (e.waitingItems (readId P msg) ≠ none ∧ serviceMessageCallback P e msg =
      (e.setItem (readId P msg) (some msg)).move (readId P msg)
        (e.callers (readId P msg)).notify) := by
  cases hitem : e.waitingItems (readId P msg) with
  | none => exact .inl ⟨rfl, by simp [serviceMessageCallback, hserialer, htype, hitem]⟩
  | some old =>
    exact .inr ⟨Option.some_ne_none _, by simp [serviceMessageCallback, hserialer, htype, hitem]⟩

/-- A message that is put into the connection and taken out again by the IO thread. -/
theorem callback_path {e : ClientEntry} (hinFlight : e.inFlight = []) {msg : Bytes}
    (hserialer : e.serialer = true) (htype : readType P msg = MessageType.replay.code) :
    ∃ ws e', Path (Waiting.step P) e ws e' ∧ e'.inFlight = [] ∧ e'.serialer = true ∧
      e'.callers = (serviceMessageCallback P e msg).callers ∧
      e'.waitingItems = (serviceMessageCallback P e msg).waitingItems := by
  let posted : ClientEntry := { e with inFlight := e.inFlight ++ [msg] }
  have hpost : Waiting.step P e (.post msg) = some posted := rfl
  have hmem : msg ∈ posted.inFlight := List.mem_append_right _ (List.mem_singleton.mpr rfl)
  have htake : posted.inFlight.erase msg = [] := by simp [posted, hinFlight]
  have hcallback : Waiting.step P posted (.callback msg) =
      some { serviceMessageCallback P posted msg with
        inFlight := posted.inFlight.erase msg, processed := posted.processed ++ [msg] } :=
    if_pos hmem
  refine ⟨_, _, (Path.nil.snoc hpost).snoc hcallback, htake, ?_⟩
  rcases serviceMessageCallback_reply (P := P) hserialer htype with ⟨hnone, heq⟩ | ⟨hsome, heq⟩
  · have hposted : serviceMessageCallback P posted msg = posted := by
      simp [serviceMessageCallback, posted, hserialer, htype, hnone]
    rw [heq, hposted]
    exact ⟨hserialer, rfl, rfl⟩
  · obtain ⟨old, hold⟩ := Option.ne_none_iff_exists'.mp hsome
    simp [serviceMessageCallback, posted, hserialer, htype, hold, ClientEntry.setItem,
      ClientEntry.move]

theorem serviceMessageCallback_items {e f : ClientEntry} {msg : Bytes} (he : e.serialer = true)
    (hf : f.serialer = true) (htype : readType P msg = MessageType.replay.code)
    (hitems : e.waitingItems = f.waitingItems) :
    (serviceMessageCallback P e msg).waitingItems =
      (serviceMessageCallback P f msg).waitingItems := by
  rcases serviceMessageCallback_reply he htype with ⟨hnone, heq⟩ | ⟨hsome, heq⟩ <;>
    rcases serviceMessageCallback_reply hf htype with ⟨hnone', heq'⟩ | ⟨hsome', heq'⟩
  · rw [heq, heq', hitems]
  · exact absurd (hitems ▸ hnone) hsome'
  · exact absurd hnone' (hitems ▸ hsome)
  · rw [heq, heq', move_waitingItems, move_waitingItems, ClientEntry.setItem, ClientEntry.setItem,
      hitems]

theorem notify_of_ne {p : Phase} (h : p ≠ .waiting false) : p.notify = p := by
  cases p with
  | waiting notified =>
    cases notified with
    | false => exact absurd rfl h
    | true => rfl
  | _ => rfl

/-- Where the reply finds an item, the call that it wakes is the one that Waiting notifies. -/
theorem Views.notify {u v : Process E} {c : Call E} {e e' : ClientEntry} {woken : Option Nat}
    (h : Views u c.entry e) (hinv : Inv u) (hnotifies : Notifies u c woken)
    (hitem : u.waitingItems c.entry c.msgId ≠ none) (hcalls : v.calls = u.calls)
    (hphases : v.phases = (notify u woken).phases)
    (hcallers : e'.callers = Function.update e.callers c.msgId (e.callers c.msgId).notify)
    (hitems : e'.waitingItems = v.waitingItems c.entry) (hserialer : e'.serialer = true)
    (hinFlight : e'.inFlight = []) : Views v c.entry e' := by
  by_cases hwaiting : e.callers c.msgId = .waiting false
  · obtain ⟨m, o, hown, hid, hphase⟩ := h.owner (by rw [hwaiting]; exact Phase.noConfusion)
    have hm : waitsOn u c m = true :=
      waitsOn_iff.mpr ⟨⟨o, hown.1, hown.2.1, hid⟩, hphase.symm.trans hwaiting⟩
    cases woken with
    | none =>
      have hnot := hnotifies.resolve_left hitem m (hinv.lt hown.1).1
      rw [hm] at hnot
      cases hnot
    | some d =>
      obtain ⟨⟨other, hother, -, hoid⟩, -⟩ := waitsOn_iff.mp hnotifies.2
      obtain rfl := hinv.unique hother hown.1 (hoid.trans hid.symm)
      rw [hwaiting, ← hid] at hcallers
      exact h.update hinv hown hcalls hphases hcallers hitems hserialer hinFlight
  · rw [notify_of_ne hwaiting, Function.update_eq_self] at hcallers
    refine h.same hcalls (fun m o hown => ?_) hcallers hitems hserialer hinFlight
    rw [hphases]
    cases woken with
    | none => rfl
    | some d =>
      refine Function.update_of_ne ?_ _ _
      rintro rfl
      obtain ⟨⟨other, hother, -, hoid⟩, hphase⟩ := waitsOn_iff.mp hnotifies.2
      obtain rfl := Option.some.inj (hother.symm.trans hown.1)
      rw [← hoid, h.calls m other hown] at hwaiting
      exact hwaiting hphase

theorem Views.callback {u v : Process E} {entry : E} {e : ClientEntry} {n : Nat} {msg : Bytes}
    {woken : Option Nat} (h : Views u entry e) (hinv : Inv u)
    (hs : step P u (.callback n msg woken) = some v) :
    ∃ ws e', Path (Waiting.step P) e ws e' ∧ Views v entry e' := by
  obtain ⟨c, hc, hrest⟩ := Option.bind_eq_some_iff.mp hs
  obtain ⟨⟨-, htype, hid, hnotifies⟩, rfl⟩ := enabled hrest
  by_cases hentry : c.entry = entry
  · subst hentry
    obtain ⟨ws, e', hp, hinFlight, hserialer, hcallers, hitems⟩ :=
      callback_path h.inFlight h.serialer htype
    rw [serviceMessageCallback_items (f := { waitingItems := u.waitingItems c.entry }) h.serialer
      rfl htype h.items] at hitems
    have hnew (w : Process E) (he : w.waitingItems c.entry = e'.waitingItems) :
        e'.waitingItems = (MessageIds.notify w woken).waitingItems c.entry := by
      rw [notify_waitingItems, he]
    refine ⟨ws, e', hp, ?_⟩
    rcases serviceMessageCallback_reply h.serialer htype with ⟨hnone, heq⟩ | ⟨hsome, heq⟩
    · rw [hid, h.items] at hnone
      cases woken with
      | none =>
        exact h.same rfl (fun _ _ _ => rfl) (hcallers.trans (congrArg _ heq))
          (hnew _ (by rw [setItems_self, hitems])) hserialer hinFlight
      | some d => exact absurd hnone hnotifies.1
    · rw [hid, h.items] at hsome
      rw [heq, hid] at hcallers
      exact h.notify hinv hnotifies hsome (notify_calls _ _) (by cases woken <;> rfl) hcallers
        (hnew _ (by rw [setItems_self, hitems])) hserialer hinFlight
  · refine ⟨[], e, .nil, h.same (notify_calls _ _) (fun m o hown => ?_) rfl ?_ h.serialer
      h.inFlight⟩
    · cases woken with
      | none => rfl
      | some d =>
        refine Function.update_of_ne ?_ _ _
        rintro rfl
        obtain ⟨⟨other, hother, hoentry, -⟩, -⟩ := waitsOn_iff.mp hnotifies.2
        obtain rfl := Option.some.inj (hother.symm.trans hown.1)
        exact hentry (hoentry.symm.trans hown.2.1)
    · rw [notify_waitingItems, h.items]
      exact (Function.update_of_ne (Ne.symm hentry) _ _).symm

theorem Views.step {u v : Process E} {entry : E} {e : ClientEntry} {a : Act E}
    (h : Views u entry e) (hinv : Inv u) (hroom : Room u a) (hs : step P u a = some v) :
    ∃ ws e', Path (Waiting.step P) e ws e' ∧ Views v entry e' := by
  cases a with
  | getMessageId other sync => exact ⟨[], e, .nil, h.getMessageId hinv hroom hs⟩
  | invoked n res =>
    obtain ⟨c, hc, hrest⟩ := Option.bind_eq_some_iff.mp hs
    obtain ⟨⟨hsync, -⟩, rfl⟩ := enabled hrest
    refine ⟨[], e, .nil, h.same rfl (fun m o hown => ?_) rfl h.items h.serialer h.inFlight⟩
    refine Function.update_of_ne ?_ _ _
    rintro rfl
    obtain rfl := Option.some.inj (hc.symm.trans hown.1)
    cases hsync.symm.trans hown.2.2
  | caller n a => exact h.caller hinv hs
  | callback n msg woken => exact h.callback hinv hs

/-- Every run that takes no more than 2^31 - 1 ids is one of Waiting on each of the entries. -/
theorem views_path {ms : List (Move (Process E) (Act E))} {v : Process E}
    (h : Path (step P) {} ms v) (hroom : ∀ m ∈ ms, Room m.pre m.act) (entry : E) :
    ∃ ws e, Path (Waiting.step P) {} ws e ∧ Views v entry e := by
  have hnew : Views ({} : Process E) entry {} :=
    ⟨rfl, rfl, rfl, fun n c hc => (by cases hc.1), fun _ _ => rfl⟩
  have hrun : Inv v ∧ ∃ ws e, Path (Waiting.step P) {} ws e ∧ Views v entry e := by
    refine h.guarded (I := fun u => Inv u ∧ ∃ ws e, Path (Waiting.step P) {} ws e ∧
      Views u entry e) ⟨inv_new, [], {}, .nil, hnew⟩ (fun u a w hu hg hs => ?_) hroom
    obtain ⟨hinv, ws, e, hp, hviews⟩ := hu
    obtain ⟨ws', e', hp', hviews'⟩ := hviews.step hinv hg hs
    exact ⟨step_inv hinv hg hs, _, e', hp.append hp', hviews'⟩
  exact hrun.2

end DericRpc.MessageIds
