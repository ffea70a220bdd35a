import DericRpc.Routing
import DericRpc.ClientLife

/-! RpcClientEntry on top of RpcClientImpl: the callers that wait for replies, and the
connection that brings them and may be dropped at any time. -/
namespace DericRpc.ConnectionLoss
open ByteString Common Serial Connection Lts Waiting

structure ClientProcess where
  client : ClientLife.Client
  entry : ClientEntry := {}

inductive Act where
  | caller (a : Waiting.Act)
  | client (a : ClientLife.Act)

/-- sendMsg finds a connection, and the connection a socket. -/
def canSend (u : ClientLife.Client) : Bool :=
  match u.ioConnection.bind u.objects with
  | none => false
  | some o => decide (o.conn.state = .started ∧ 0 ≤ o.conn.socketFd)

/-- The steps that are the callers' own. -/
def allowed (u : ClientLife.Client) : Waiting.Act → Bool
  | .send _ => canSend u
  | .post _ | .callback _ => false
  | _ => true

/-- RpcClientImpl::handleData: what goes to the message callback. -/
def messageOf : Option ClientCall → Option Bytes
  | some (.handleData pData len) => if len ≤ 0 then none else some (pData.take len.toNat)
  | _ => none

/-- The message that an action hands to the message callback. -/
def delivered (u : ClientLife.Client) : ClientLife.Act → Option Bytes
  | .dispatch errors =>
    match u.batch with
    | [] => none
    | (fd, error) :: _ =>
      if fd = u.io.wakeUpPipeFd.1 then none
      else (u.io.ioMembers fd).bind fun id => (u.objects id).bind fun o =>
        (ClientLife.react o error errors).bind fun out => messageOf out.2
  | _ => none

variable (P : MsgPack)

/-- serviceMessageCallback, for a message that is taken as soon as it is there. -/
def deliver (e : ClientEntry) : Option Bytes → Option ClientEntry
  | none => some e
  | some msg => run (Waiting.step P) e [.post msg, .callback msg]

def step (u : ClientProcess) : Act → Option ClientProcess
  | .caller a =>
    if allowed u.client a = true then
      (Waiting.step P u.entry a).map fun entry => { u with entry := entry }
    else none
  | .client a => (ClientLife.step u.client a).bind fun client =>
      (deliver P u.entry (delivered u.client a)).map fun entry => ⟨client, entry⟩

/-- The step is one of message `k`'s caller. -/
def OwnStep (k : Int32) : Act → Prop
  | .caller a => Routing.caller a = some k
  | .client _ => False

/-- In this step serviceMessageCallback takes a REPLY to message `k`. -/
def Takes (m : Move ClientProcess Act) (k : Int32) : Prop :=
  ∃ a msg, m.act = .client a ∧ delivered m.pre.client a = some msg ∧
    readType P msg = MessageType.replay.code ∧ readId P msg = k

/-- The step drops the connection. -/
def Drops (m : Move ClientProcess Act) : Prop :=
  m.pre.client.ioConnection ≠ none ∧ m.post.client.ioConnection = none

/-- Since the caller has begun to wait, it is notified by a REPLY to its message and by
nothing else. -/
def NotifiedByReply (ms : List (Move ClientProcess Act)) (k : Int32) (notified : Bool) : Prop :=
  ∃ pre m post, ms = pre ++ m :: post ∧ m.act = .caller (.wait k) ∧
    (∀ x ∈ post, ¬OwnStep k x.act) ∧ (notified = true ↔ ∃ x ∈ post, Takes P x k)

variable {P}

theorem deliver_cases {e e' : ClientEntry} {msg : Bytes} (h : deliver P e (some msg) = some e') :
    ∃ e1, Waiting.step P e (.post msg) = some e1 ∧ Waiting.step P e1 (.callback msg) = some e' ∧
      e1.callers = e.callers ∧ e'.callers = (serviceMessageCallback P e1 msg).callers := by
  obtain ⟨e2, h2, h3⟩ := Option.bind_eq_some_iff.mp h
  obtain rfl : e2 = e' := Option.some.inj h3
  obtain ⟨-, rfl⟩ := enabled h2
  exact ⟨_, rfl, h2, rfl, rfl⟩

theorem step_entryInv {u v : ClientProcess} {a : Act} (hi : Inv P u.entry)
    (h : step P u a = some v) : Inv P v.entry := by
  cases a with
  | caller a =>
    obtain ⟨-, hstep⟩ := Option.ite_none_right_eq_some.mp h
    obtain ⟨entry, hentry, rfl⟩ := Option.map_eq_some_iff.mp hstep
    exact step_inv hentry hi
  | client a =>
    obtain ⟨client, -, hdeliver⟩ := Option.bind_eq_some_iff.mp h
    obtain ⟨entry, hentry, rfl⟩ := Option.map_eq_some_iff.mp hdeliver
    cases hmsg : delivered u.client a with
    | none =>
      rw [hmsg] at hentry
      rwa [← Option.some.inj hentry]
    | some msg =>
      rw [hmsg] at hentry
      obtain ⟨e1, h1, h2, -, -⟩ := deliver_cases hentry
      exact step_inv h2 (step_inv h1 hi)

theorem own_step_waiting {e e' : ClientEntry} {a : Waiting.Act} {k : Int32} {b : Bool}
    (h : Waiting.step P e a = some e') (ha : Routing.caller a = some k)
    (hv : e'.callers k = .waiting b) : a = .wait k ∧ b = false := by
  cases a with
  | send j =>
    obtain rfl := Option.some.inj ha
    obtain ⟨-, rfl⟩ := enabled h
    simp at hv
  | sendFails j =>
    obtain rfl := Option.some.inj ha
    obtain ⟨-, rfl⟩ := enabled h
    simp at hv
  | addItem j =>
    obtain rfl := Option.some.inj ha
    obtain ⟨-, hadd⟩ := Option.ite_none_right_eq_some.mp h
    split_ifs at hadd <;> rw [← Option.some.inj hadd] at hv <;> simp at hv
  | wait j =>
    obtain rfl := Option.some.inj ha
    obtain ⟨-, rfl⟩ := enabled h
    exact ⟨rfl, by simpa using hv.symm⟩
  | resume j =>
    obtain rfl := Option.some.inj ha
    obtain ⟨-, rfl⟩ := enabled h
    simp [takeResult] at hv
  | spuriousWake j =>
    obtain rfl := Option.some.inj ha
    obtain ⟨-, rfl⟩ := enabled h
    simp [takeResult] at hv
  | removeItem j =>
    obtain rfl := Option.some.inj ha
    simp only [Waiting.step] at h
    split at h
    · rw [← Option.some.inj h] at hv
      simp at hv
    · cases h
  | post msg => cases ha
  | callback msg => cases ha

theorem callback_waiting_iff {e : ClientEntry} (hi : Inv P e) {msg : Bytes} {k : Int32} {b : Bool}
    (hv : (serviceMessageCallback P e msg).callers k = .waiting b) :
    ∃ b', e.callers k = .waiting b' ∧ (b = true ↔ b' = true ∨
      readType P msg = MessageType.replay.code ∧ readId P msg = k) := by
  by_cases hk : readType P msg = MessageType.replay.code ∧ readId P msg = k
  · obtain ⟨htype, rfl⟩ := hk
    obtain ⟨b', hb'⟩ : ∃ b', e.callers (readId P msg) = .waiting b' := by
      rcases serviceMessageCallback_cases P e msg with hsame | ⟨-, -, hnotify⟩
      · exact ⟨b, hsame ▸ hv⟩
      · rw [hnotify, move_callers, Function.update_self] at hv
        cases hp : e.callers (readId P msg) with
        | waiting b' => exact ⟨b', rfl⟩
        | _ => simp [hp, Phase.notify] at hv
    rw [callback_waiting hi htype hb'] at hv
    obtain rfl : true = b := Phase.waiting.inj hv
    exact ⟨b', hb', by simp [htype]⟩
  · have hsame : e.callers k = .waiting b := by
      rcases serviceMessageCallback_cases P e msg with hsame | ⟨htype, -, hnotify⟩
      · exact hsame ▸ hv
      · rw [hnotify, move_callers, Function.update_of_ne fun he => hk ⟨htype, he.symm⟩] at hv
        exact hv
    exact ⟨b, hsame, by simp [hk]⟩

/-- A caller that waits was just put to wait by its own step, or was waiting before and is
notified by a REPLY to it only. -/
theorem step_waiting {u v : ClientProcess} {a : Act} (hi : Inv P u.entry)
    (h : step P u a = some v) {k : Int32} {b : Bool} (hv : v.entry.callers k = .waiting b) :
    (a = .caller (.wait k) ∧ b = false) ∨
    (¬OwnStep k a ∧ ∃ b', u.entry.callers k = .waiting b' ∧
      (b = true ↔ b' = true ∨ Takes P ⟨u, a, v⟩ k)) := by
  cases a with
  | caller a =>
    obtain ⟨hallowed, hstep⟩ := Option.ite_none_right_eq_some.mp h
    obtain ⟨entry, hentry, rfl⟩ := Option.map_eq_some_iff.mp hstep
    by_cases hown : Routing.caller a = some k
    · obtain ⟨rfl, rfl⟩ := own_step_waiting hentry hown hv
      exact .inl ⟨rfl, rfl⟩
    · refine .inr ⟨hown, b, ?_, ?_⟩
      · rcases Routing.step_item hentry k with ⟨hsame, -⟩ | ⟨msg, ⟨rfl, -⟩, -⟩ | ⟨hcaller, -⟩
        · exact hsame ▸ hv
        · cases hallowed
        · exact absurd hcaller hown
      · exact ⟨.inl, fun hb => hb.resolve_right fun ⟨_, _, ha, _⟩ => nomatch ha⟩
  | client a =>
    obtain ⟨client, -, hdeliver⟩ := Option.bind_eq_some_iff.mp h
    obtain ⟨entry, hentry, rfl⟩ := Option.map_eq_some_iff.mp hdeliver
    refine .inr ⟨id, ?_⟩
    cases hmsg : delivered u.client a with
    | none =>
      rw [hmsg] at hentry
      obtain rfl := Option.some.inj hentry
      refine ⟨b, hv, .inl, fun hb => hb.resolve_right ?_⟩
      rintro ⟨a', msg, ha, hsome, -⟩
      obtain rfl := Act.client.inj ha
      rw [hmsg] at hsome
      cases hsome
    | some msg =>
      rw [hmsg] at hentry
      obtain ⟨e1, h1, h2, hcallers, hcallback⟩ := deliver_cases hentry
      simp only [hcallback] at hv
      obtain ⟨b', hb', hiff⟩ := callback_waiting_iff (step_inv h1 hi) hv
      refine ⟨b', hcallers ▸ hb', hiff.trans (or_congr_right ?_)⟩
      constructor
      · rintro ⟨htype, hid⟩
        exact ⟨a, msg, rfl, hmsg, htype, hid⟩
      · rintro ⟨a', msg', ha, hsome, htype, hid⟩
        obtain rfl := Act.client.inj ha
        obtain rfl := Option.some.inj (hmsg.symm.trans hsome)
        exact ⟨htype, hid⟩

/-- What drops the connection hands no message to the callers. -/
theorem drop_entry {u v : ClientProcess} {a : Act} (h : step P u a = some v)
    (hdrop : Drops ⟨u, a, v⟩) : v.entry = u.entry := by
  cases a with
  | caller a =>
    obtain ⟨-, hstep⟩ := Option.ite_none_right_eq_some.mp h
    obtain ⟨entry, -, rfl⟩ := Option.map_eq_some_iff.mp hstep
    exact absurd hdrop.2 hdrop.1
  | client a =>
    obtain ⟨client, hclient, hdeliver⟩ := Option.bind_eq_some_iff.mp h
    obtain ⟨entry, hentry, rfl⟩ := Option.map_eq_some_iff.mp hdeliver
    have hnone : delivered u.client a = none := by
      cases a with
      | dispatch errors =>
        obtain ⟨fd, error, rest, hbatch, hcase⟩ := ClientLife.dispatch_cases hclient
        simp only [delivered, hbatch]
        cases hcase with
        | nothing pipe hfd hv => exact absurd (hv ▸ hdrop.2) hdrop.1
        | reacted id o o' call hpipe hid ho hreact hcall hv =>
          exact absurd (hv ▸ hdrop.2) hdrop.1
        | closed id o o' hpipe hid ho hreact hv => simp [hpipe, hid, ho, hreact, messageOf]
      | _ => rfl
    rw [hnone] at hentry
    exact (Option.some.inj hentry).symm

/-- In every run, whether the connection is there or gone: a caller that waits is notified
exactly when a REPLY to it was taken since it began to wait, and what drops the connection
changes nothing for the callers. -/
theorem waiting_until_reply {client : ClientLife.Client} {ms : List (Move ClientProcess Act)}
    {u : ClientProcess} (h : Path (step P) ⟨client, {}⟩ ms u) :
    (∀ k b, u.entry.callers k = .waiting b → NotifiedByReply P ms k b) ∧
      ∀ m ∈ ms, Drops m → m.post.entry = m.pre.entry := by
  constructor
  · induction h with
    | nil => exact fun k b hk => nomatch hk
    | @snoc ms u v a hp hu ih =>
      have hi : Inv P u.entry := hp.invariant (I := fun x => Inv P x.entry) inv_init
        fun _ _ _ hi hs => step_entryInv hi hs
      intro k b hk
      rcases step_waiting hi hu hk with ⟨rfl, rfl⟩ | ⟨hother, b', hb', hiff⟩
      · exact ⟨ms, _, [], rfl, rfl, List.forall_mem_nil _, by simp⟩
      · obtain ⟨pre, m, post, rfl, hm, hpost, htaken⟩ := ih k b' hb'
        refine ⟨pre, m, post ++ [⟨u, a, v⟩], by simp, hm, fun x hx => ?_, ?_⟩
        · rcases List.mem_append.mp hx with hx | hx
          · exact hpost x hx
          · rwa [List.mem_singleton.mp hx]
        · simp only [hiff, htaken, List.mem_append, List.mem_singleton, or_and_right, exists_or,
            exists_eq_left]
  · intro m hm hdrop
    obtain ⟨-, -, -, -, hstep⟩ := h.split hm
    exact drop_entry hstep hdrop

theorem peer_closes_run : ∃ ms u, Path (step standard) ⟨ClientLife.newClient, {}⟩ ms u ∧
    u.client.ioConnection = none ∧ u.entry.callers 1 = .waiting false := by
  have hrun : ∃ u, run (step standard) ⟨ClientLife.newClient, {}⟩
      [.client (.connect 80 6 true false), .caller (.send 1), .caller (.addItem 1),
        .caller (.wait 1), .client (.peerClose 0), .client (.epollWait [(6, false)]),
        .client (.dispatch {})] = some u ∧
      u.client.ioConnection = none ∧ u.entry.callers 1 = .waiting false := ⟨_, rfl, rfl, rfl⟩
  obtain ⟨u, hu, hrest⟩ := hrun
  obtain ⟨ms, hp, -⟩ := path_of_run hu
  exact ⟨ms, u, hp, hrest⟩

theorem waiting_until_reply_closed :
    ∃ ms u, Path (step standard) ⟨ClientLife.newClient, {}⟩ ms u ∧
      u.client.ioConnection = none ∧ u.entry.callers 1 = .waiting false ∧
      (∀ k b, u.entry.callers k = .waiting b → NotifiedByReply standard ms k b) ∧
      ∀ m ∈ ms, Drops m → m.post.entry = m.pre.entry := by
  obtain ⟨ms, u, hp, hgone, hwaiting⟩ := peer_closes_run
  exact ⟨ms, u, hp, hgone, hwaiting, waiting_until_reply hp⟩

/-- The close of the connection leaves its caller waiting, with nothing to wake it. -/
theorem caller_stranded :
    ¬∀ (ms : List (Move ClientProcess Act)) (u : ClientProcess),
      Path (step standard) ⟨ClientLife.newClient, {}⟩ ms u → u.client.ioConnection = none →
      ∀ k b, u.entry.callers k = .waiting b → b = true := by
  intro h
  obtain ⟨ms, u, hp, hgone, hwaiting⟩ := peer_closes_run
  cases h ms u hp hgone 1 false hwaiting

end DericRpc.ConnectionLoss
