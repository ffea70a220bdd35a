import DericRpc.Routing
import DericRpc.SyncCall
import DericRpc.Lib.Exchange
import DericRpc.Lib.Simulation

/-! Remote calls without connections: any number of processes with any number of client entries,
one service, and peers that put messages of their own. Messages wait in order and are taken one
at a time. -/
namespace DericRpc.Remote
open ByteString Codec Common Serial Functions Service SyncCall Lts Exchange Simulation
variable {P : MsgPack} {W C N : Type}

/-- What a program may change while its service runs. -/
inductive Change (P : MsgPack) (W : Type) where
  | registerMethod (funcName : Bytes) (func : Registered P W)
  | unregisterMethod (funcName : Bytes)

def Change.apply (s : RpcServiceEntry P W) : Change P W → RpcServiceEntry P W
  | .registerMethod funcName func => (s.registerMethod funcName func).1
  | .unregisterMethod funcName => (s.unregisterMethod funcName).1

/-- The service by itself, with the world that its functions act on. -/
def server (P : MsgPack) (W : Type) :
    Server (RpcServiceEntry P W × W) (Change P W) Bytes Bytes where
  change s l := (l.apply s.1, s.2)
  handle s m :=
    let out := handleData s.1 m [] s.2
    ((s.1, out.world), if out.resultString = [] then none else some out.resultString)

/-- A call whose command went out, under the id that it took. -/
structure Issued (P : MsgPack) where
  msgId : Int32
  call : Call P
  sync : Bool

def Issued.command (i : Issued P) : Bytes := i.call.command i.msgId

/-- The client entries, and for each process the counter of its ids. -/
structure Clients (P : MsgPack) (C N : Type) where
  index : N → Int32 := fun _ => 0
  entry : C → Waiting.ClientEntry := fun _ => {}
  calls : C → List (Issued P) := fun _ => []

section
variable [DecidableEq C]

/-- Steps of one entry. -/
def Clients.act (u : Clients P C N) (c : C) (as : List Waiting.Act) : Option (Clients P C N) :=
  (run (Waiting.step P) (u.entry c) as).map fun e => { u with entry := Function.update u.entry c e }

/-- invoke, or invokeWithResultSync where `sync` is set, up to the result of its send. The sum
has no value beyond the largest int. -/
def Clients.invoke [DecidableEq N] (process : C → N) (u : Clients P C N) (c : C) (call : Call P)
    (sync sent : Bool) : Option (Clients P C N) :=
  let msgId := u.index (process c) + 1
  if u.index (process c) = Int32.maxValue then none
  else
    Clients.act { u with
      index := Function.update u.index (process c) msgId
      calls := if sent then push u.calls c [⟨msgId, call, sync⟩] else u.calls } c
      (if sync then [if sent then .send msgId else .sendFails msgId] else [])

/-- serviceMessageCallback with one message. -/
def Clients.deliver (u : Clients P C N) (c : C) (msg : Bytes) : Option (Clients P C N) :=
  u.act c [.post msg, .callback msg]

end

/-- The steps of a caller behind its send. -/
def isCaller : Waiting.Act → Bool
  | .addItem _ | .wait _ | .resume _ | .spuriousWake _ | .removeItem _ => true
  | _ => false

structure State (P : MsgPack) (W C N : Type) where
  exchange : Exchange.State C (RpcServiceEntry P W × W) (Change P W) Bytes Bytes
  clients : Clients P C N := {}

inductive Act (P : MsgPack) (W C : Type) where
  | invoke (c : C) (call : Call P) (sync sent : Bool)
  | caller (c : C) (a : Waiting.Act)
  | put (c : C) (m : Bytes)
  | change (l : Change P W)
  | handle (c : C)
  | receive (c : C)

variable [DecidableEq C]

def State.go (u : State P W C N) (clients : Option (Clients P C N))
    (as : List (Exchange.Act C (Change P W) Bytes)) : Option (State P W C N) :=
  clients.bind fun clients => (run (Exchange.step (server P W)) u.exchange as).map fun exchange =>
    ⟨exchange, clients⟩

variable {u v : State P W C N} {c : C}

theorem go_cases {clients : Option (Clients P C N)} {as : List (Exchange.Act C (Change P W) Bytes)}
    (h : u.go clients as = some v) :
    clients = some v.clients ∧ run (Exchange.step (server P W)) u.exchange as = some v.exchange := by
  obtain ⟨x, hx, h⟩ := Option.bind_eq_some_iff.mp h
  obtain ⟨e, he, rfl⟩ := Option.map_eq_some_iff.mp h
  exact ⟨hx, he⟩

theorem act_cases {x y : Clients P C N} {as : List Waiting.Act} (h : x.act c as = some y) :
    y.index = x.index ∧ y.calls = x.calls ∧ (∀ d, d ≠ c → y.entry d = x.entry d) ∧
      run (Waiting.step P) (x.entry c) as = some (y.entry c) := by
  obtain ⟨e, he, rfl⟩ := Option.map_eq_some_iff.mp h
  refine ⟨rfl, rfl, fun d hd => Function.update_of_ne hd .., ?_⟩
  rw [he]
  exact congrArg some (Function.update_self c e x.entry).symm

variable [DecidableEq N]

/-- `foreign` marks the clients that are none of the entries. -/
def step (process : C → N) (foreign : C → Bool) (u : State P W C N) :
    Act P W C → Option (State P W C N)
  | .invoke c call sync sent =>
    if foreign c then none
    else u.go (u.clients.invoke process c call sync sent)
      (if sent then [.request c (call.command (u.clients.index (process c) + 1))] else [])
  | .caller c a => if foreign c = false ∧ isCaller a then u.go (u.clients.act c [a]) [] else none
  | .put c m => if foreign c then u.go (some u.clients) [.request c m] else none
  | .change l => u.go (some u.clients) [.change l]
  | .handle c => u.go (some u.clients) [.handle c]
  | .receive c =>
    if foreign c then none
    else u.go ((u.exchange.replies c).head?.bind (u.clients.deliver c)) [.receive c]

variable {process : C → N} {foreign : C → Bool} {a : Act P W C}

/-- In every step the exchange makes steps of its own. -/
theorem step_exchange (h : step process foreign u a = some v) :
    ∃ as, run (Exchange.step (server P W)) u.exchange as = some v.exchange := by
  cases a with
  | invoke c call sync sent => exact ⟨_, (go_cases (Option.ite_none_left_eq_some.mp h).2).2⟩
  | caller c a => exact ⟨_, (go_cases (Option.ite_none_right_eq_some.mp h).2).2⟩
  | put c m => exact ⟨_, (go_cases (Option.ite_none_right_eq_some.mp h).2).2⟩
  | change l => exact ⟨_, (go_cases h).2⟩
  | handle c => exact ⟨_, (go_cases h).2⟩
  | receive c => exact ⟨_, (go_cases (Option.ite_none_left_eq_some.mp h).2).2⟩

/-- What concerns one client. -/
structure View (P : MsgPack) where
  index : Int32
  calls : List (Issued P)
  entry : Waiting.ClientEntry
  issued : List Bytes
  received : List Bytes

def State.view (u : State P W C N) (process : C → N) (c : C) : View P where
  index := u.clients.index (process c)
  calls := u.clients.calls c
  entry := u.clients.entry c
  issued := u.exchange.issued c
  received := u.exchange.received c

/-- What a step does to one client: nothing, or an id of its process is taken, for a command of
its own that goes out, for one that is refused or for neither, or one of its callers goes on, or
a reply is handed over. -/
inductive ClientStep (a : Act P W C) (c : C) : View P → View P → Prop
  | same (x : View P) : ClientStep a c x x
  | taken (x : View P) (hmax : x.index ≠ Int32.maxValue) :
      ClientStep a c x { x with index := x.index + 1 }
  | sent (x : View P) (hmax : x.index ≠ Int32.maxValue) (call : Call P) (sync : Bool)
      (e : Waiting.ClientEntry) (he : run (Waiting.step P) x.entry
        (if sync then [.send (x.index + 1)] else []) = some e) :
      ClientStep a c x ⟨x.index + 1, x.calls ++ [⟨x.index + 1, call, sync⟩], e,
        x.issued ++ [call.command (x.index + 1)], x.received⟩
  | failed (x : View P) (hmax : x.index ≠ Int32.maxValue) (e : Waiting.ClientEntry)
      (he : Waiting.step P x.entry (.sendFails (x.index + 1)) = some e) :
      ClientStep a c x { x with index := x.index + 1, entry := e }
  | caller (x : View P) (b : Waiting.Act) (ha : a = .caller c b) (hb : isCaller b = true)
      (e : Waiting.ClientEntry) (he : Waiting.step P x.entry b = some e) :
      ClientStep a c x { x with entry := e }
  | received (x : View P) (r : Bytes) (e : Waiting.ClientEntry)
      (he : run (Waiting.step P) x.entry [.post r, .callback r] = some e) :
      ClientStep a c x { x with entry := e, received := x.received ++ [r] }

theorem invoke_cases {x y : Clients P C N} {call : Call P} {sync sent : Bool}
    (h : x.invoke process c call sync sent = some y) :
    x.index (process c) ≠ Int32.maxValue ∧
      y.index = Function.update x.index (process c) (x.index (process c) + 1) ∧
      y.calls = (if sent then push x.calls c [⟨x.index (process c) + 1, call, sync⟩]
        else x.calls) ∧
      (∀ d, d ≠ c → y.entry d = x.entry d) ∧
      run (Waiting.step P) (x.entry c) (if sync then [if sent then
        .send (x.index (process c) + 1) else .sendFails (x.index (process c) + 1)] else []) =
        some (y.entry c) := by
  obtain ⟨hmax, h⟩ := Option.ite_none_left_eq_some.mp h
  obtain ⟨hindex, hcalls, hother, hentry⟩ := act_cases h
  exact ⟨hmax, hindex, hcalls, hother, hentry⟩

theorem step_client (hown : foreign c = false) (h : step process foreign u a = some v) :
    ClientStep a c (u.view process c) (v.view process c) := by
  cases a with
  | invoke d call sync sent =>
    obtain ⟨hclients, hexchange⟩ := go_cases (Option.ite_none_left_eq_some.mp h).2
    obtain ⟨hmax, hindex, hcalls, hother, hentry⟩ := invoke_cases hclients
    by_cases hd : c = d
    · subst hd
      have hnew : v.clients.index (process c) = u.clients.index (process c) + 1 := by
        rw [hindex, Function.update_self]
      cases sent with
      | true =>
        obtain hx := Option.some.inj (run_single.mp hexchange)
        have hv : v.view process c = ⟨(u.view process c).index + 1, (u.view process c).calls ++
            [⟨(u.view process c).index + 1, call, sync⟩], v.clients.entry c,
            (u.view process c).issued ++ [call.command ((u.view process c).index + 1)],
            (u.view process c).received⟩ := by
          simp [State.view, hnew, hcalls, ← hx]
        rw [hv]
        exact .sent _ hmax call sync _ hentry
      | false =>
        obtain hx := Option.some.inj hexchange
        have hv : v.view process c = { u.view process c with
            index := (u.view process c).index + 1, entry := v.clients.entry c } := by
          simp [State.view, hnew, hcalls, ← hx]
        cases sync with
        | true =>
          rw [hv]
          exact .failed _ hmax _ (run_single.mp hentry)
        | false =>
          have hsame : v.clients.entry c = u.clients.entry c := (Option.some.inj hentry).symm
          rw [hv, hsame]
          exact .taken _ hmax
    · have hcalls' : v.clients.calls c = u.clients.calls c := by
        rw [hcalls]
        cases sent with
        | true => exact push_of_ne _ _ hd
        | false => rfl
      have hx : v.exchange.issued c = u.exchange.issued c ∧
          v.exchange.received c = u.exchange.received c := by
        cases sent with
        | true =>
          rw [← Option.some.inj (run_single.mp hexchange)]
          exact ⟨push_of_ne _ _ hd, rfl⟩
        | false =>
          rw [← Option.some.inj hexchange]
          exact ⟨rfl, rfl⟩
      by_cases hp : process c = process d
      · have hv : v.view process c = { u.view process c with
            index := (u.view process c).index + 1 } := by
          simp [State.view, hindex, hp, hcalls', hother c hd, hx]
        rw [hv]
        exact .taken _ (by rwa [State.view, hp])
      · have hv : v.view process c = u.view process c := by
          simp [State.view, hindex, hp, hcalls', hother c hd, hx]
        rw [hv]
        exact .same _
  | caller d b =>
    obtain ⟨⟨-, hb⟩, hgo⟩ := Option.ite_none_right_eq_some.mp h
    obtain ⟨hclients, hexchange⟩ := go_cases hgo
    obtain ⟨hindex, hcalls, hother, hentry⟩ := act_cases hclients
    obtain hx := Option.some.inj hexchange
    by_cases hd : c = d
    · subst hd
      have hv : v.view process c = { u.view process c with entry := v.clients.entry c } := by
        simp [State.view, hindex, hcalls, hx]
      rw [hv]
      exact .caller _ b rfl hb _ (run_single.mp hentry)
    · have hv : v.view process c = u.view process c := by
        simp [State.view, hindex, hcalls, hother c hd, hx]
      rw [hv]
      exact .same _
  | put d m =>
    obtain ⟨hforeign, hgo⟩ := Option.ite_none_right_eq_some.mp h
    obtain ⟨hclients, hexchange⟩ := go_cases hgo
    have hd : c ≠ d := by
      rintro rfl
      rw [hown] at hforeign
      cases hforeign
    have hv : v.view process c = u.view process c := by
      simp [State.view, ← Option.some.inj hclients, ← Option.some.inj (run_single.mp hexchange),
        push_of_ne _ _ hd]
    rw [hv]
    exact .same _
  | change l =>
    obtain ⟨hclients, hexchange⟩ := go_cases h
    have hv : v.view process c = u.view process c := by
      simp [State.view, ← Option.some.inj hclients, ← Option.some.inj (run_single.mp hexchange)]
    rw [hv]
    exact .same _
  | handle d =>
    obtain ⟨hclients, hexchange⟩ := go_cases h
    have hv : v.view process c = u.view process c := by
      cases hq : u.exchange.requests d with
      | nil => simp [run, Exchange.step, hq] at hexchange
      | cons q rest =>
        have hx := run_single.mp hexchange
        simp only [Exchange.step, hq] at hx
        simp [State.view, ← Option.some.inj hclients, ← Option.some.inj hx]
    rw [hv]
    exact .same _
  | receive d =>
    obtain ⟨-, hgo⟩ := Option.ite_none_left_eq_some.mp h
    obtain ⟨hclients, hexchange⟩ := go_cases hgo
    cases hr : u.exchange.replies d with
    | nil => simp [hr] at hclients
    | cons r rest =>
      have hx := run_single.mp hexchange
      simp only [Exchange.step, hr] at hx
      rw [hr, List.head?_cons, Option.bind_some] at hclients
      obtain ⟨hindex, hcalls, hother, hentry⟩ := act_cases hclients
      by_cases hd : c = d
      · subst hd
        have hv : v.view process c = { u.view process c with
            entry := v.clients.entry c, received := (u.view process c).received ++ [r] } := by
          simp [State.view, hindex, hcalls, ← Option.some.inj hx]
        rw [hv]
        exact .received _ r _ hentry
      · have hv : v.view process c = u.view process c := by
          simp [State.view, hindex, hcalls, hother c hd, ← Option.some.inj hx, push_of_ne _ _ hd]
        rw [hv]
        exact .same _

/-! What holds of a client in every run. -/

theorem lt_succ {i : Int32} (h : i ≠ Int32.maxValue) : i < i + 1 := by
  have hne : i.toInt ≠ 2 ^ 31 - 1 := fun he => h (Int32.toInt_inj.mp (he.trans (by decide)))
  have hlt := i.toInt_lt
  have hle := i.le_toInt
  have hone : (1 : Int32).toInt = 1 := by decide
  rw [Int32.lt_iff_toInt_lt, Int32.toInt_add, hone, Int.bmod]
  split_ifs <;> omega

variable {e e' : Waiting.ClientEntry} {b : Waiting.Act} {k : Int32} {r : Bytes}

theorem isCaller_cases (h : Waiting.step P e b = some e') (hb : isCaller b = true) :
    ∃ k, Routing.caller b = some k ∧ e.callers k ≠ .idle := by
  cases b with
  | addItem k =>
    refine ⟨k, rfl, ?_⟩
    rw [(Option.ite_none_right_eq_some.mp h).1]
    exact Waiting.Phase.noConfusion
  | wait k =>
    refine ⟨k, rfl, ?_⟩
    rw [(enabled h).1]
    exact Waiting.Phase.noConfusion
  | resume k =>
    refine ⟨k, rfl, ?_⟩
    rw [(enabled h).1]
    exact Waiting.Phase.noConfusion
  | spuriousWake k =>
    refine ⟨k, rfl, ?_⟩
    rw [(enabled h).1]
    exact Waiting.Phase.noConfusion
  | removeItem k =>
    refine ⟨k, rfl, fun hidle => ?_⟩
    simp [Waiting.step, hidle] at h
  | _ => cases hb

theorem own_step (h : Waiting.step P e b = some e') (hb : Routing.caller b = some k) :
    e'.inFlight = e.inFlight ∧ e'.processed = e.processed ∧
      ∀ j, j ≠ k → e'.callers j = e.callers j := by
  have hqueues : e'.inFlight = e.inFlight ∧ e'.processed = e.processed := by
    obtain ⟨-, hsame | ⟨msg, rfl, -⟩ | ⟨msg, rfl, -⟩⟩ := Waiting.step_queues h
    · exact hsame
    · cases hb
    · cases hb
  refine ⟨hqueues.1, hqueues.2, fun j hj => ?_⟩
  obtain ⟨hsame, -⟩ | ⟨msg, ⟨rfl, -⟩, -⟩ | ⟨hcaller, -⟩ := Routing.step_item h j
  · exact hsame
  · cases hb
  · exact absurd (Option.some.inj (hcaller.symm.trans hb)) hj

/-- A reply that is handed over is processed at once, and notifies one caller at most. -/
theorem deliver_step (hin : e.inFlight = [])
    (h : run (Waiting.step P) e [.post r, .callback r] = some e') :
    e'.inFlight = [] ∧ e'.processed = e.processed ++ [r] ∧
      e'.callers = (Waiting.serviceMessageCallback P { e with inFlight := [r] } r).callers := by
  obtain ⟨e1, h1, h2⟩ := Option.bind_eq_some_iff.mp h
  obtain rfl := Option.some.inj h1
  obtain ⟨-, rfl⟩ := enabled (run_single.mp h2)
  simp [hin]

theorem callback_callers (P : MsgPack) (e : Waiting.ClientEntry) (r : Bytes) (j : Int32) :
    (Waiting.serviceMessageCallback P e r).callers j = e.callers j ∨
      (Waiting.serviceMessageCallback P e r).callers j = (e.callers j).notify := by
  obtain hsame | ⟨-, -, hnotify⟩ := Waiting.serviceMessageCallback_cases P e r
  · rw [hsame]
    exact .inl rfl
  · rw [hnotify, Waiting.move_callers]
    by_cases hj : j = readId P r
    · subst hj
      exact .inr (Function.update_self ..)
    · exact .inl (Function.update_of_ne hj ..)

/-- The issued commands are those of the calls, whose ids grow; the replies taken are those that
the entry has processed; and no id above the counter has a caller. -/
structure ClientInv (x : View P) : Prop where
  issued : x.issued = x.calls.map Issued.command
  taken : x.entry.processed = x.received
  inFlight : x.entry.inFlight = []
  entry : Waiting.Inv P x.entry
  ids : ∀ i ∈ x.calls, i.msgId ≤ x.index
  increasing : x.calls.Pairwise fun i j => i.msgId < j.msgId
  idle : ∀ k, x.index < k → x.entry.callers k = .idle

theorem ClientInv.taken_id {x : View P} (h : ClientInv x) (hmax : x.index ≠ Int32.maxValue) :
    ClientInv { x with index := x.index + 1 } :=
  { h with
    ids := fun i hi => Int32.le_trans (h.ids i hi) (Int32.le_of_lt (lt_succ hmax))
    idle := fun k hk => h.idle k (Int32.lt_trans (lt_succ hmax) hk) }

theorem ClientInv.own {x : View P} (hx : ClientInv x) (h : Waiting.step P x.entry b = some e)
    (hb : Routing.caller b = some k) (hk : k ≤ x.index) : ClientInv { x with entry := e } := by
  obtain ⟨hin, hprocessed, hother⟩ := own_step h hb
  refine ⟨hx.issued, hprocessed.trans hx.taken, hin.trans hx.inFlight,
    Waiting.step_inv h hx.entry, hx.ids, hx.increasing, fun j hj => ?_⟩
  have hne : j ≠ k := by
    rintro rfl
    exact Int32.lt_irrefl (Int32.lt_of_le_of_lt hk hj)
  exact (hother j hne).trans (hx.idle j hj)

omit [DecidableEq C] in
theorem ClientStep.inv {a : Act P W C} {x y : View P} (h : ClientStep a c x y)
    (hx : ClientInv x) : ClientInv y := by
  cases h with
  | same => exact hx
  | taken hmax => exact hx.taken_id hmax
  | sent hmax call sync e he =>
    have hentry : ClientInv { x with index := x.index + 1, entry := e } := by
      cases sync with
      | true => exact (hx.taken_id hmax).own (run_single.mp he) rfl Int32.le_rfl
      | false =>
        obtain rfl := Option.some.inj he
        exact hx.taken_id hmax
    refine { hentry with issued := ?_, ids := ?_, increasing := ?_ }
    · simp [hx.issued, Issued.command]
    · intro i hi
      rcases List.mem_append.mp hi with hold | hnew
      · exact hentry.ids i hold
      · rw [List.mem_singleton.mp hnew]
        exact Int32.le_rfl
    · refine List.pairwise_append.mpr ⟨hx.increasing, List.pairwise_singleton _ _, ?_⟩
      intro i hi j hj
      rw [List.mem_singleton.mp hj]
      exact Int32.lt_of_le_of_lt (hx.ids i hi) (lt_succ hmax)
  | failed hmax e he => exact (hx.taken_id hmax).own he rfl Int32.le_rfl
  | caller b ha hb e he =>
    obtain ⟨k, hk, hne⟩ := isCaller_cases he hb
    exact hx.own he hk (Int32.not_lt.mp fun hlt => hne (hx.idle k hlt))
  | received r e he =>
    obtain ⟨hin, hprocessed, hcallers⟩ := deliver_step hx.inFlight he
    refine ⟨hx.issued, ?_, hin, ?_, hx.ids, hx.increasing, fun k hk => ?_⟩
    · rw [hprocessed, hx.taken]
    · exact run_invariant (fun _ _ _ hi hs => Waiting.step_inv hs hi) he hx.entry
    · have hidle := hx.idle k hk
      obtain hsame | hnotify := callback_callers P { x.entry with inFlight := [r] } r k
      · rw [hcallers, hsame]
        exact hidle
      · rw [hcallers, hnotify]
        simp only [hidle, Waiting.Phase.notify]

/-- What is there in every run of the whole system. -/
structure Inv (process : C → N) (foreign : C → Bool) (s : RpcServiceEntry P W × W)
    (u : State P W C N) : Prop where
  linear : Linear (server P W) s u.exchange
  client : ∀ c, foreign c = false → ClientInv (u.view process c)

def start (s : RpcServiceEntry P W × W) : State P W C N := { exchange := { server := s } }

omit [DecidableEq N] in
theorem inv_start (s : RpcServiceEntry P W × W) :
    Inv process foreign s (start s : State P W C N) where
  linear := linear_init _ _
  client _ _ :=
    { issued := rfl, taken := rfl, inFlight := rfl, entry := Waiting.inv_init
      ids := List.forall_mem_nil _, increasing := List.Pairwise.nil, idle := fun _ _ => rfl }

theorem step_inv {a : Act P W C} {s : RpcServiceEntry P W × W} (hu : Inv process foreign s u)
    (h : step process foreign u a = some v) : Inv process foreign s v where
  linear := by
    obtain ⟨as, has⟩ := step_exchange h
    exact run_invariant (fun _ _ _ hi hs => step_linear hi hs) has hu.linear
  client c hc := (step_client hc h).inv (hu.client c hc)

/-- The condition variables wake nobody without a notification. -/
def Notified : Act P W C → Prop
  | .caller _ (.spuriousWake _) => False
  | _ => True

/-- What a caller has been given is a processed reply to its message. -/
def Answered (x : View P) : Prop :=
  ∀ k str, (x.entry.callers k).result = some str → Waiting.Answer P x.entry k str

theorem answered_step {x : View P} (hx : ClientInv x) (hr : Answered x)
    (h : Waiting.step P x.entry b = some e) (hb : ∀ k, b ≠ .spuriousWake k) :
    Answered { x with entry := e } :=
  fun k => Waiting.step_result h hx.entry (hb k) (hr k)

omit [DecidableEq C] in
theorem ClientStep.answered {a : Act P W C} {x y : View P} (h : ClientStep a c x y)
    (hx : ClientInv x) (ha : Notified a) (hr : Answered x) : Answered y := by
  cases h with
  | same => exact hr
  | taken hmax => exact hr
  | sent hmax call sync e he =>
    cases sync with
    | true => exact answered_step hx hr (run_single.mp he) nofun
    | false =>
      obtain rfl := Option.some.inj he
      exact hr
  | failed hmax e he => exact answered_step hx hr he nofun
  | caller b hb hcaller e he =>
    refine answered_step hx hr he fun k hk => ?_
    subst hk
    rw [hb] at ha
    exact ha
  | received r e he =>
    obtain ⟨e1, h1, h2⟩ := Option.bind_eq_some_iff.mp he
    have hfirst := answered_step hx hr h1 nofun
    exact fun k => Waiting.step_result (run_single.mp h2) (Waiting.step_inv h1 hx.entry) nofun
      (hfirst k)

/-! What a call gets back. -/

/-- What the function bound to the call's name returns in that state of the service, as the
caller's type: none for a name that is not bound, a void function, or a value of another type. -/
def value (s : RpcServiceEntry P W × W) (i : Issued P) : Option i.call.R :=
  if Ready s.1.funcHelper = true then
    (s.1.serviceImpl.functions i.call.func.1).bind fun f => f.function.ret.bind fun ret =>
      i.call.resConv.as
        (ret.toObj (f.function.call (readData P f.function.args i.command) s.2).1)
  else none

/-- A reply to a call holds the value, or nothing that the caller could read. -/
theorem reply_value {s : RpcServiceEntry P W × W} (hs : Accepting s.1) (i : Issued P)
    (h : (handleData s.1 i.command [] s.2).resultString ≠ []) :
    messageData P i.call.resConv (handleData s.1 i.command [] s.2).resultString = value s i := by
  have htype : messageTypeOf (readType P i.command) = some .command := by
    rw [Issued.command, Call.command, message_eq, readType_header, messageTypeOf_code]
  have hname : readName P i.command = i.call.func := command_name _ _
  have hid : readId P i.command = i.msgId := command_id _ _
  have hempty : messageData P i.call.resConv (header P .replay i.call.func i.msgId) = none := by
    have hcut := messageData_cut P .replay i.call.func i.msgId
      (List.nil_append (P.pack (P.int.toObj 0))) (P.pack_ne_nil _) i.call.resConv
    rwa [List.append_nil] at hcut
  have hrefused (hno : Ready s.1.funcHelper = true →
      s.1.serviceImpl.functions i.call.func.1 = none) : value s i = none ∧
        (handleData s.1 i.command [] s.2).resultString = header P .replay i.call.func i.msgId := by
    constructor
    · by_cases hready : Ready s.1.funcHelper = true
      · rw [value, if_pos hready, hno hready, Option.bind_none]
      · rw [value, if_neg hready]
    · rw [handleData_command hs htype, handleCommand_refused (by rwa [hname]), hname, hid]
  by_cases hready : Ready s.1.funcHelper = true
  · cases hf : s.1.serviceImpl.functions i.call.func.1 with
    | none =>
      obtain ⟨hvalue, hreply⟩ := hrefused fun _ => hf
      rw [hvalue, hreply, hempty]
    | some f =>
      have hrun := handleData_target ⟨hs, hready⟩ ((target_command s.1 i.call i.msgId).trans hf) []
        s.2
      rw [command_name, command_id] at hrun
      change handleData s.1 i.command [] s.2 = _ at hrun
      rw [value, if_pos hready, hf, Option.bind_some]
      cases hret : f.function.ret with
      | none =>
        rw [hrun, finish_void hret] at h
        exact absurd rfl h
      | some ret =>
        rw [hrun, finish_result hret, Option.bind_some]
        exact messageData_message P .replay i.call.func i.msgId ret i.call.resConv _
  · obtain ⟨hvalue, hreply⟩ := hrefused fun hr => absurd hr hready
    rw [hvalue, hreply, hempty]

omit [DecidableEq C] in
theorem after_accepting {s : RpcServiceEntry P W × W} (hs : Accepting s.1)
    (es : List (Event C (Change P W) Bytes)) : Accepting ((server P W).after s es).1 := by
  induction es generalizing s with
  | nil => exact hs
  | cons e es ih =>
    refine ih ?_
    cases e with
    | handled c m => exact hs
    | change l =>
      cases l with
      | registerMethod funcName func =>
        change Accepting (s.1.registerMethod funcName func).1
        unfold RpcServiceEntry.registerMethod RpcServiceImpl.registerMethod
        cases s.1.funcHelper with
        | none => exact hs
        | some helper =>
          cases s.1.serviceImpl.functions funcName with
          | none => exact ⟨hs.started, hs.serialer⟩
          | some f => exact ⟨hs.started, hs.serialer⟩
      | unregisterMethod funcName =>
        change Accepting (s.1.unregisterMethod funcName).1
        unfold RpcServiceEntry.unregisterMethod RpcServiceImpl.unregisterMethod
        cases s.1.serviceImpl.functions funcName with
        | none => exact hs
        | some f => exact ⟨hs.started, hs.serialer⟩

theorem apply_funcHelper (s : RpcServiceEntry P W) (l : Change P W) :
    (l.apply s).funcHelper = s.funcHelper := by
  cases l with
  | registerMethod funcName func =>
    unfold Change.apply RpcServiceEntry.registerMethod
    cases hhelper : s.funcHelper <;> simp [hhelper]
  | unregisterMethod funcName => rfl

omit [DecidableEq C] in
theorem after_funcHelper (s : RpcServiceEntry P W × W) (es : List (Event C (Change P W) Bytes)) :
    ((server P W).after s es).1.funcHelper = s.1.funcHelper := by
  induction es generalizing s with
  | nil => rfl
  | cons e es ih =>
    refine (ih _).trans ?_
    cases e with
    | handled c m => rfl
    | change l => exact apply_funcHelper s.1 l

omit [DecidableEq C] in
theorem after_serving {s : RpcServiceEntry P W × W} (hs : Serving s.1)
    (es : List (Event C (Change P W) Bytes)) : Serving ((server P W).after s es).1 where
  toAccepting := after_accepting hs.toAccepting es
  ready := by
    rw [after_funcHelper]
    exact hs.ready

theorem handle_void {s : RpcServiceEntry P W × W} (hs : Serving s.1) (i : Issued P)
    {f : Registered P W} (hf : s.1.serviceImpl.functions i.call.func.1 = some f)
    (hvoid : f.function.ret = none) : ((server P W).handle s i.command).2 = none := by
  have htarget : target s.1 i.command = some f := (target_command s.1 i.call i.msgId).trans hf
  have hnil : (handleData s.1 i.command [] s.2).resultString = [] := by
    rw [handleData_target hs htarget, finish_void hvoid]
  exact if_pos hnil

theorem ClientInv.call_unique {x : View P} (h : ClientInv x) {i j : Issued P} (hi : i ∈ x.calls)
    (hj : j ∈ x.calls) (hid : i.msgId = j.msgId) : i = j := by
  have hnodup : (x.calls.map Issued.msgId).Nodup :=
    List.pairwise_map.mpr (h.increasing.imp fun hlt => Int32.ne_of_lt hlt)
  exact List.inj_on_of_nodup_map hnodup hi hj hid

theorem ClientInv.commands_nodup {x : View P} (h : ClientInv x) : x.issued.Nodup := by
  rw [h.issued]
  refine List.pairwise_map.mpr (h.increasing.imp fun {i j} hlt he => ?_)
  have hid : i.msgId = j.msgId := by
    rw [← command_id i.call i.msgId, ← command_id j.call j.msgId]
    exact congrArg _ he
  rw [hid] at hlt
  exact Int32.lt_irrefl hlt

/-- The command was handled at this place of the history, and at no other. -/
def HandledAt (past : List (Event C (Change P W) Bytes)) (c : C) (m : Bytes)
    (pre : List (Event C (Change P W) Bytes)) : Prop :=
  (∃ post, past = pre ++ .handled c m :: post) ∧
    ∀ pre' post', past = pre' ++ .handled c m :: post' → pre' = pre

/-- What the reply to a call is: what the service made of its command where that was handled. -/
structure Reply (s : RpcServiceEntry P W × W) (past : List (Event C (Change P W) Bytes)) (c : C)
    (i : Issued P) (str : Bytes) (pre : List (Event C (Change P W) Bytes)) : Prop where
  handled : HandledAt past c i.command pre
  resultString : (handleData ((server P W).after s pre).1 i.command []
    ((server P W).after s pre).2).resultString = str
  value : messageData P i.call.resConv str = value ((server P W).after s pre) i

theorem handle_reply {s : RpcServiceEntry P W × W} {m : Bytes} {str : Bytes}
    (h : ((server P W).handle s m).2 = some str) :
    (handleData s.1 m [] s.2).resultString = str ∧ str ≠ [] := by
  obtain ⟨hne, hstr⟩ := Option.ite_none_left_eq_some.mp h
  obtain rfl := Option.some.inj hstr
  exact ⟨rfl, hne⟩

theorem handle_none {s : RpcServiceEntry P W × W} {m : Bytes}
    (h : ((server P W).handle s m).2 = none) :
    (handleData s.1 m [] s.2).resultString = [] := by
  by_contra hne
  exact absurd (if_neg hne) (h.trans_ne (Option.some_ne_none _).symm)

omit [DecidableEq N] in
theorem Inv.handledAt {s : RpcServiceEntry P W × W} (hu : Inv process foreign s u)
    (hc : foreign c = false) {m : Bytes} {pre post : List (Event C (Change P W) Bytes)}
    (h : u.exchange.past = pre ++ .handled c m :: post) : HandledAt u.exchange.past c m pre := by
  have hdistinct : (u.exchange.issued c).Nodup := (hu.client c hc).commands_nodup
  rw [← hu.linear.requests c] at hdistinct
  exact ⟨⟨post, h⟩, fun pre' post' h' => (handled_once hdistinct.of_append_left h' h).1⟩

omit [DecidableEq N] in
/-- A reply that was processed answers the one call with its id, at the one place where the
service handled that call. -/
theorem Inv.reply {s : RpcServiceEntry P W × W} (hu : Inv process foreign s u)
    (hs : Accepting s.1) (hc : foreign c = false) {k : Int32} {str : Bytes}
    (ha : Waiting.Answer P (u.clients.entry c) k str) :
    ∃ i ∈ u.clients.calls c, i.msgId = k ∧ ∃ pre, Reply s u.exchange.past c i str pre := by
  have hx := hu.client c hc
  obtain ⟨hprocessed, -, hid⟩ := ha
  have htaken : (u.clients.entry c).processed = u.exchange.received c := hx.taken
  have hcommands : u.exchange.issued c = (u.clients.calls c).map Issued.command := hx.issued
  rw [htaken] at hprocessed
  obtain ⟨pre, m, post, hpast, hreply, hissued⟩ := hu.linear.received hprocessed
  obtain ⟨hstr, hne⟩ := handle_reply hreply
  rw [hcommands] at hissued
  obtain ⟨i, hi, rfl⟩ := List.mem_map.mp hissued
  have hiid : readId P str = i.msgId := by
    rw [← hstr] at hne ⊢
    exact (reply_id _ i.call i.msgId _ hne).2
  refine ⟨i, hi, hiid.symm.trans hid, pre, hu.handledAt hc hpast, hstr, ?_⟩
  rw [← hstr] at hne ⊢
  exact reply_value (after_accepting hs pre) i hne

omit [DecidableEq N] in
theorem Inv.no_answer {s : RpcServiceEntry P W × W} (hu : Inv process foreign s u)
    (hs : Accepting s.1) (hc : foreign c = false) {i : Issued P} (hi : i ∈ u.clients.calls c)
    {pre post : List (Event C (Change P W) Bytes)}
    (hpast : u.exchange.past = pre ++ .handled c i.command :: post)
    (hnone : ((server P W).handle ((server P W).after s pre) i.command).2 = none) (str : Bytes) :
    ¬Waiting.Answer P (u.clients.entry c) i.msgId str := by
  intro ha
  obtain ⟨j, hj, hid, pre', hreply⟩ := hu.reply hs hc ha
  obtain rfl : j = i := (hu.client c hc).call_unique hj hi hid
  obtain rfl : pre = pre' := hreply.handled.2 pre post hpast
  have hnil := handle_none hnone
  obtain rfl : [] = str := hnil.symm.trans hreply.resultString
  have htype : readType P [] = MessageType.replay.code := ha.2.1
  rw [readType, P.nth_nil] at htype
  exact absurd htype (show ¬(-1 : Int32) = MessageType.replay.code by decide)

/-- The invariants, with what the callers have been given where nobody is woken for nothing. -/
structure Truthful (process : C → N) (foreign : C → Bool) (s : RpcServiceEntry P W × W)
    (u : State P W C N) : Prop extends Inv process foreign s u where
  answered : ∀ c, foreign c = false → Answered (u.view process c)

theorem step_truthful {a : Act P W C} {s : RpcServiceEntry P W × W}
    (hu : Truthful process foreign s u) (ha : Notified a) (h : step process foreign u a = some v) :
    Truthful process foreign s v where
  toInv := step_inv hu.toInv h
  answered c hc := (step_client hc h).answered (hu.client c hc) ha (hu.answered c hc)

omit [DecidableEq N] in
theorem truthful_start (s : RpcServiceEntry P W × W) :
    Truthful process foreign s (start s : State P W C N) where
  toInv := inv_start s
  answered _ _ _ _ h := nomatch h

end DericRpc.Remote
