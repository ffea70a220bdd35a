import DericRpc.Routing

/-! RpcClientEntry::deinit against the callers that wait for replies: whether each of them still
has the item it added. -/
namespace DericRpc.Teardown
open ByteString Common Serial Lts Waiting Routing

/-- What deinit does next. -/
inductive Deinit where
  | serialer
  | clientImpl
  | waitingItems
  deriving DecidableEq

/-- The item objects are numbered as they are made: `items` is the one that m_waitingItems holds
under an id, `own` the one that the id's caller added. `waited` has the ids whose callers have
gone into cv.wait. -/
structure Client where
  entry : ClientEntry := {}
  clientImpl : Bool := true
  deinit : Deinit := .serialer
  waited : List Int32 := []
  made : Nat := 0
  items : Int32 → Option Nat := fun _ => none
  own : Int32 → Option Nat := fun _ => none

inductive Act where
  | caller (a : Waiting.Act)
  | deinit

/-- A command is sent only through both objects, and what has waited on an item reads it: where
the item is gone, nothing is defined. -/
def Defined (u : Client) : Waiting.Act → Prop
  | .send _ => u.entry.serialer = true ∧ u.clientImpl = true
  | .resume k | .spuriousWake k => (u.entry.waitingItems k).isSome = true
  | _ => True

instance (u : Client) (a : Waiting.Act) : Decidable (Defined u a) := by
  cases a <;> unfold Defined <;> infer_instance

/-- A new item object under the id, where there is none. -/
def Client.makeItem (u : Client) (k : Int32) : Client :=
  if u.entry.waitingItems k = none then
    { u with made := u.made + 1, items := Function.update u.items k (some u.made) }
  else u

def callerStep (u : Client) (e : ClientEntry) : Waiting.Act → Client
  | .addItem k =>
    let v := u.makeItem k
    { v with entry := e, own := if u.entry.waitingItems k = none then
        Function.update u.own k (some u.made) else u.own }
  | .wait k => { u.makeItem k with entry := e, waited := k :: u.waited }
  | .removeItem k => { u with entry := e, items := Function.update u.items k none }
  | _ => { u with entry := e }

/-- A caller is blocked in cv.wait, not notified yet. -/
def Blocked (u : Client) : Prop := ∃ k ∈ u.waited, u.entry.callers k = .waiting false

instance (u : Client) : Decidable (Blocked u) := inferInstanceAs (Decidable (∃ k ∈ u.waited, _))

def step (P : MsgPack) (u : Client) : Act → Option Client
  | .caller a =>
    if Defined u a then (Waiting.step P u.entry a).map fun e => callerStep u e a else none
  | .deinit =>
    match u.deinit with
    | .serialer => some { u with entry := { u.entry with serialer := false }, deinit := .clientImpl }
    | .clientImpl => some { u with clientImpl := false, deinit := .waitingItems }
    | .waitingItems =>
      -- a condition variable must not be destroyed while somebody is blocked on it
      if Blocked u then none
      else some { u with
        entry := { u.entry with waitingItems := fun _ => none }
        items := fun _ => none
        deinit := .serialer }

variable {P : MsgPack}

/-- The caller is in cv.wait. -/
def Waits : Phase → Prop
  | .waiting _ => True
  | _ => False

theorem waits_notify {p : Phase} (h : Waits p.notify) : Waits p := by
  cases p <;> exact h

theorem waits_cases {e' : ClientEntry} {a : Waiting.Act} {k : Int32} {p p' : Phase}
    {item item' : Option Bytes} (hs : CallerStep P e' a k p item p' item') (hk : Waits p') :
    Waits p ∨ a = .wait k := by
  cases hs with
  | same => exact .inl hk
  | wait _ ha => exact .inr ha
  | reply => exact .inl (waits_notify hk)
  | _ => exact hk.elim

def Listed (u : Client) : Prop := ∀ k, Waits (u.entry.callers k) → k ∈ u.waited

theorem callerStep_waited (u : Client) (e : ClientEntry) (a : Waiting.Act) :
    (callerStep u e a).entry = e ∧
      ∀ k, k ∈ u.waited ∨ a = .wait k → k ∈ (callerStep u e a).waited := by
  have hmake (k : Int32) : (u.makeItem k).waited = u.waited := by
    unfold Client.makeItem
    split_ifs <;> rfl
  cases a with
  | addItem j => exact ⟨rfl, fun k hk => by simpa [callerStep, hmake] using hk⟩
  | wait j => exact ⟨rfl, fun k hk => by simpa [callerStep, eq_comm, or_comm] using hk⟩
  | _ => exact ⟨rfl, fun k hk => by simpa [callerStep] using hk⟩

/-- deinit gets to clear the map only while nobody is blocked, and then it is empty. -/
theorem clear_cases {u v : Client} (hd : u.deinit = .waitingItems)
    (hs : step P u .deinit = some v) : ¬Blocked u ∧
      { u with
        entry := { u.entry with waitingItems := fun _ => none }
        items := fun _ => none
        deinit := .serialer } = v := by
  simp only [step, hd] at hs
  split_ifs at hs with hblocked
  exact ⟨hblocked, Option.some.inj hs⟩

theorem step_listed {u v : Client} {a : Act} (h : Listed u) (hs : step P u a = some v) :
    Listed v := by
  cases a with
  | caller a =>
    obtain ⟨-, hstep⟩ := Option.ite_none_right_eq_some.mp hs
    obtain ⟨e, he, rfl⟩ := Option.map_eq_some_iff.mp hstep
    obtain ⟨hentry, hwaited⟩ := callerStep_waited u e a
    intro k hk
    rw [hentry] at hk
    exact hwaited k ((waits_cases (step_caller he k) hk).imp_left (h k))
  | deinit =>
    cases hd : u.deinit with
    | serialer =>
      simp only [step, hd, Option.some.injEq] at hs
      subst hs
      exact h
    | clientImpl =>
      simp only [step, hd, Option.some.injEq] at hs
      subst hs
      exact h
    | waitingItems =>
      obtain ⟨-, rfl⟩ := clear_cases hd hs
      exact h

/-- In every run the list of waiters leaves none out. -/
theorem blocked_iff {ms : List (Move Client Act)} {v : Client} (h : Path (step P) {} ms v) :
    Blocked v ↔ ∃ k, v.entry.callers k = .waiting false := by
  have hlisted : Listed v :=
    h.invariant (I := Listed) (fun _ hk => hk.elim) fun _ _ _ hu hs => step_listed hu hs
  exact exists_congr fun k => and_iff_right_of_imp fun hk => hlisted k (by rw [hk]; trivial)

/-- Every caller between adding its item and removing it finds that item in m_waitingItems. -/
def OwnItems (u : Client) : Prop :=
  ∀ k, Holding (u.entry.callers k) → ∃ n, u.own k = some n ∧ u.items k = some n

/-- deinit clears m_waitingItems only while no caller has an item. -/
def NoWaiters (u : Client) : Act → Prop
  | .deinit => u.deinit = .waitingItems → ∀ k, ¬Holding (u.entry.callers k)
  | _ => True

structure Inv (u : Client) : Prop where
  own : OwnItems u
  present : ∀ k, (u.entry.waitingItems k).isSome = (u.items k).isSome

theorem inv_new : Inv {} := ⟨fun _ h => h.elim, fun _ => rfl⟩

/-- A step that makes and removes no item, and gives none to a caller. -/
theorem Inv.keep {u : Client} (h : Inv u) {e : ClientEntry}
    (hitems : ∀ k, (e.waitingItems k).isSome = (u.entry.waitingItems k).isSome)
    (hcallers : ∀ k, Holding (e.callers k) → Holding (u.entry.callers k)) :
    Inv { u with entry := e } where
  own k hk := h.own k (hcallers k hk)
  present k := (hitems k).trans (h.present k)

theorem holding_notify (p : Phase) : Holding p.notify → Holding p := by
  cases p <;> exact id

theorem holding_update {e : ClientEntry} {j : Int32} {p : Phase}
    (hp : Holding p → Holding (e.callers j)) (k : Int32)
    (hk : Holding (Function.update e.callers j p k)) : Holding (e.callers k) := by
  by_cases hj : k = j
  · subst hj
    rw [Function.update_self] at hk
    exact hp hk
  · rwa [Function.update_of_ne hj] at hk

theorem isSome_update {e : ClientEntry} {j : Int32} {msg : Bytes}
    (hj : (e.waitingItems j).isSome = true) (k : Int32) :
    (Function.update e.waitingItems j (some msg) k).isSome = (e.waitingItems k).isSome := by
  by_cases hk : k = j
  · subst hk
    rw [Function.update_self, hj]
    rfl
  · rw [Function.update_of_ne hk]

theorem addItem_inv {u : Client} {e : ClientEntry} {j : Int32} (h : Inv u)
    (hs : Waiting.step P u.entry (.addItem j) = some e) : Inv (callerStep u e (.addItem j)) := by
  obtain ⟨-, hadd⟩ := Option.ite_none_right_eq_some.mp hs
  cases hi : u.entry.waitingItems j with
  | some msg =>
    obtain rfl : u.entry.move j (.returned [] (-1)) = e := by
      simpa [addResultWaitingItem, hi] using hadd
    have hsame : callerStep u (u.entry.move j (.returned [] (-1))) (.addItem j) =
        { u with entry := u.entry.move j (.returned [] (-1)) } := by
      simp [callerStep, Client.makeItem, hi]
    rw [hsame]
    exact h.keep (fun _ => rfl) (holding_update fun hp => hp.elim)
  | none =>
    obtain rfl : (u.entry.setItem j (some [])).move j .added = e := by
      simpa [addResultWaitingItem, hi] using hadd
    simp only [callerStep, Client.makeItem, if_pos hi]
    constructor
    · intro k hk
      by_cases hj : k = j
      · subst hj
        exact ⟨u.made, Function.update_self .., Function.update_self ..⟩
      · obtain ⟨n, hown, hitem⟩ := h.own k (by simpa [ClientEntry.setItem, hj] using hk)
        exact ⟨n, by simpa [hj] using hown, by simpa [hj] using hitem⟩
    · intro k
      by_cases hj : k = j
      · simp [ClientEntry.move, ClientEntry.setItem, hj]
      · simpa [ClientEntry.move, ClientEntry.setItem, hj] using h.present k

/-- A caller that goes to wait finds its item, so that operator[] makes none. -/
theorem wait_inv {u : Client} {e : ClientEntry} {j : Int32} (h : Inv u)
    (hs : Waiting.step P u.entry (.wait j) = some e) : Inv (callerStep u e (.wait j)) := by
  obtain ⟨hadded, rfl⟩ := enabled hs
  have hholds : Holding (u.entry.callers j) := by
    rw [hadded]
    trivial
  obtain ⟨n, -, hitem⟩ := h.own j hholds
  have hpresent : (u.entry.waitingItems j).isSome = true := by
    rw [h.present j, hitem]
    rfl
  obtain ⟨msg, hmsg⟩ := Option.isSome_iff_exists.mp hpresent
  simp only [callerStep, Client.makeItem, hmsg, reduceCtorEq, if_false]
  have hkeep := h.keep (e := (u.entry.setItem j (some msg)).move j (.waiting false))
    (isSome_update hpresent) (holding_update fun _ => hholds)
  exact ⟨hkeep.own, hkeep.present⟩

theorem removeItem_inv {u : Client} {e : ClientEntry} {j : Int32} (h : Inv u)
    (hs : Waiting.step P u.entry (.removeItem j) = some e) :
    Inv (callerStep u e (.removeItem j)) := by
  cases hp : u.entry.callers j with
  | resumed str =>
    have he : e.callers = Function.update u.entry.callers j (.returned str 0) ∧
        e.waitingItems = Function.update u.entry.waitingItems j none := by
      cases hi : u.entry.waitingItems j with
      | none =>
        obtain rfl : u.entry.move j (.returned str 0) = e := by
          simpa [Waiting.step, hp, removeResultWaitingItem, hi] using hs
        exact ⟨rfl, eq_update_of_eq hi⟩
      | some msg =>
        obtain rfl : (u.entry.setItem j none).move j (.returned str 0) = e := by
          simpa [Waiting.step, hp, removeResultWaitingItem, hi] using hs
        exact ⟨rfl, rfl⟩
    obtain ⟨hcallers, hitems⟩ := he
    constructor
    · intro k hk
      simp only [callerStep, hcallers] at hk
      by_cases hj : k = j
      · subst hj
        rw [Function.update_self] at hk
        exact hk.elim
      · rw [Function.update_of_ne hj] at hk
        obtain ⟨n, hown, hitem⟩ := h.own k hk
        exact ⟨n, hown, by simpa [callerStep, hj] using hitem⟩
    · intro k
      simp only [callerStep, hitems]
      by_cases hj : k = j
      · simp [hj]
      · simpa [hj] using h.present k
  | _ => simp [Waiting.step, hp] at hs

theorem takeResult_inv {u : Client} {j : Int32} (h : Inv u)
    (hholds : Holding (u.entry.callers j)) (hitem : (u.entry.waitingItems j).isSome = true) :
    Inv { u with entry := takeResult u.entry j } :=
  h.keep (isSome_update hitem) (holding_update fun _ => hholds)

theorem callback_inv {u : Client} (h : Inv u) (msg : Bytes) (inFlight processed : List Bytes) :
    Inv { u with entry := { serviceMessageCallback P u.entry msg with
      inFlight := inFlight, processed := processed } } := by
  rcases serviceMessageCallback_cases P u.entry msg with hsame | ⟨-, hitem, hnotify⟩
  · rw [hsame]
    exact h.keep (fun _ => rfl) fun _ hk => hk
  · rw [hnotify]
    exact h.keep (isSome_update hitem) (holding_update (holding_notify _))

theorem caller_inv {u : Client} {e : ClientEntry} {a : Waiting.Act} (h : Inv u)
    (hdefined : Defined u a) (hs : Waiting.step P u.entry a = some e) :
    Inv (callerStep u e a) := by
  cases a with
  | send j =>
    obtain ⟨-, rfl⟩ := enabled hs
    exact h.keep (fun _ => rfl) (holding_update fun hp => hp.elim)
  | sendFails j =>
    obtain ⟨-, rfl⟩ := enabled hs
    exact h.keep (fun _ => rfl) (holding_update fun hp => hp.elim)
  | addItem j => exact addItem_inv h hs
  | wait j => exact wait_inv h hs
  | resume j =>
    obtain ⟨hp, rfl⟩ := enabled hs
    exact takeResult_inv h (by rw [hp]; trivial) hdefined
  | spuriousWake j =>
    obtain ⟨hp, rfl⟩ := enabled hs
    exact takeResult_inv h (by rw [hp]; trivial) hdefined
  | removeItem j => exact removeItem_inv h hs
  | post msg =>
    obtain rfl : { u.entry with inFlight := u.entry.inFlight ++ [msg] } = e := by
      simpa [Waiting.step] using hs
    exact h.keep (fun _ => rfl) fun _ hk => hk
  | callback msg =>
    obtain ⟨-, rfl⟩ := enabled hs
    exact callback_inv h msg _ _

theorem step_inv {u v : Client} {a : Act} (h : Inv u) (hguard : NoWaiters u a)
    (hs : step P u a = some v) : Inv v := by
  cases a with
  | caller a =>
    obtain ⟨hdefined, hstep⟩ := Option.ite_none_right_eq_some.mp hs
    obtain ⟨e, he, rfl⟩ := Option.map_eq_some_iff.mp hstep
    exact caller_inv h hdefined he
  | deinit =>
    cases hd : u.deinit with
    | serialer =>
      simp only [step, hd, Option.some.injEq] at hs
      subst hs
      exact ⟨h.own, h.present⟩
    | clientImpl =>
      simp only [step, hd, Option.some.injEq] at hs
      subst hs
      exact ⟨h.own, h.present⟩
    | waitingItems =>
      obtain ⟨-, rfl⟩ := clear_cases hd hs
      exact ⟨fun k hk => absurd hk (hguard hd k), fun _ => rfl⟩

theorem noWaiters_of_ownItems {u v : Client} {a : Act} (hs : step P u a = some v)
    (hv : OwnItems v) : NoWaiters u a := by
  cases a with
  | caller a => trivial
  | deinit =>
    intro hd k hk
    obtain ⟨-, rfl⟩ := clear_cases hd hs
    obtain ⟨n, -, hitem⟩ := hv k hk
    cases hitem

/-- In every run of any callers, the IO thread and deinit: every caller between adding and
removing its item has that item, exactly when deinit never clears the items while a caller
has one. -/
theorem ownItems_iff {ms : List (Move Client Act)} {v : Client} (h : Path (step P) {} ms v) :
    (∀ m ∈ ms, OwnItems m.post) ↔ ∀ m ∈ ms, NoWaiters m.pre m.act :=
  h.guarded_iff (I := Inv) inv_new (fun _ _ _ hi hguard hs => step_inv hi hguard hs)
    (fun _ hi => hi.own) fun _ _ _ _ hs hv => noWaiters_of_ownItems hs hv

def waitActs : List Act :=
  [.caller (.send 1), .caller (.addItem 1), .caller (.wait 1)]

theorem ownItems_iff_waiting : ∃ (ms : List (Move Client Act)) (v : Client),
    Path (step standard) {} ms v ∧ v.entry.callers 1 = .waiting false ∧
      ((∀ m ∈ ms, OwnItems m.post) ↔ ∀ m ∈ ms, NoWaiters m.pre m.act) := by
  have hrun : ∃ v, run (step standard) {} waitActs = some v ∧
      v.entry.callers 1 = .waiting false := ⟨_, rfl, rfl⟩
  obtain ⟨v, hv, hwaiting⟩ := hrun
  obtain ⟨ms, hp, -⟩ := path_of_run hv
  exact ⟨ms, v, hp, hwaiting, ownItems_iff hp⟩

/-- deinit between a caller's adding its item and waiting on it. -/
theorem deinit_pulls_item : ¬ ∀ (ms : List (Move Client Act)) (v : Client),
    Path (step standard) {} ms v → OwnItems v := by
  intro h
  have hrun : ∃ v, run (step standard) {}
      [.caller (.send 1), .caller (.addItem 1), .deinit, .deinit, .deinit] = some v ∧
      v.entry.callers 1 = .added ∧ v.items 1 = none := ⟨_, rfl, rfl, rfl⟩
  obtain ⟨v, hv, hadded, hgone⟩ := hrun
  obtain ⟨ms, hp, -⟩ := path_of_run hv
  obtain ⟨n, -, hitem⟩ := h ms v hp 1 (by rw [hadded]; trivial)
  cases hgone.symm.trans hitem

end DericRpc.Teardown
