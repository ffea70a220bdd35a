import DericRpc.Calls

/-! What can still happen: from every state that a run reaches the reads alone bring all commands
and replies of a client home, unless a peer keeps the service's thread inside a read. -/
namespace DericRpc.Progress
open ByteString Common Serial Functions Service Connection Framing Segments SyncCall
open Lts Simulation Exchange Wires Remote Network Calls
variable {P : MsgPack} {W C N : Type} [DecidableEq C] [DecidableEq N]
  {process : C → N} {foreign : C → Bool} {u v : Sys P W C N} {c : C}

/-- The steps of the network and of the IO threads for the clients' connections. -/
def isIo (foreign : C → Bool) : Network.Act P W C → Bool
  | .arriveUp c _ | .arriveDown c _ | .serve c | .receive c => !foreign c
  | _ => false

/-- A thread is blocked on a connection only while part of a message is there, and a process only
on one of its own. -/
structure Threads (process : C → N) (foreign : C → Bool) (u : Sys P W C N) : Prop where
  serving : ∀ d, u.serving = some d → (u.up d).content ≠ []
  reading : ∀ n d, u.reading n = some d →
    process d = n ∧ foreign d = false ∧ (u.down d).content ≠ []

omit [DecidableEq C] in
theorem content_ne_nil {w : Wire} (h : w.arrived ≠ []) : w.content ≠ [] := by
  simp [Wire.content, h]

omit [DecidableEq N] in
theorem write_ne_nil {w : C → Wire} {d : C} (b : Bytes) (h : (w d).content ≠ []) :
    (Function.update w c ((w c).write b) d).content ≠ [] := by
  by_cases hd : d = c
  · subst hd
    rw [Function.update_self, write_content]
    simp [h]
  · rwa [Function.update_of_ne hd]

omit [DecidableEq N] in
theorem serve_threads (ht : Threads process foreign u)
    (hlive : ∀ d conn, u.accepted d = some conn → conn.Live)
    (hfit : ∀ m ∈ pending (u.up c),
      (handleData u.service m [] u.world).resultString.length ≤ maxMessage)
    (h : u.serve c = some v) : Threads process foreign v := by
  obtain ⟨-, harrived⟩ := (Option.ite_none_right_eq_some.mp h).1
  obtain ⟨-, rfl⟩ | ⟨rest, -, rfl⟩ | ⟨m, rest, conn, -, -, rfl⟩ := serve_cases hlive hfit h
  · refine ⟨fun d hd => ?_, ht.reading⟩
    obtain rfl := Option.some.inj hd
    exact content_ne_nil harrived
  · exact ⟨fun d hd => (nomatch hd), ht.reading⟩
  · refine ⟨fun d hd => (nomatch hd), fun n d hd => ?_⟩
    obtain ⟨hn, hf, hne⟩ := ht.reading n d hd
    exact ⟨hn, hf, write_ne_nil _ hne⟩

theorem receive_threads {x : State P W C N} (hx : Refines foreign u x) (hc : foreign c = false)
    (ht : Threads process foreign u) (h : u.receive process c = some v) :
    Threads process foreign v := by
  obtain ⟨-, harrived⟩ := (Option.ite_none_right_eq_some.mp h).1
  obtain ⟨-, rfl⟩ | ⟨m, ms, rest, conn, clients, -, -, -, -, -, rfl⟩ := receive_cases hx hc h
  · refine ⟨ht.serving, fun n d hd => ?_⟩
    dsimp only at hd
    by_cases hn : n = process c
    · subst hn
      rw [Function.update_self] at hd
      obtain rfl := Option.some.inj hd
      exact ⟨rfl, hc, content_ne_nil harrived⟩
    · rw [Function.update_of_ne hn] at hd
      exact ht.reading n d hd
  · refine ⟨ht.serving, fun n d hd => ?_⟩
    dsimp only at hd
    by_cases hn : n = process c
    · subst hn
      rw [Function.update_self] at hd
      cases hd
    · rw [Function.update_of_ne hn] at hd
      obtain ⟨hp, hf, hne⟩ := ht.reading n d hd
      refine ⟨hp, hf, ?_⟩
      have hdc : d ≠ c := by
        rintro rfl
        exact hn hp.symm
      dsimp only
      rwa [Function.update_of_ne hdc]

theorem step_threads {x : State P W C N} {a : Network.Act P W C} (hx : Refines foreign u x)
    (hfit : Fits process u a) (ht : Threads process foreign u)
    (h : Network.step process foreign u a = some v) : Threads process foreign v := by
  cases a with
  | invoke c call sync fails =>
    obtain ⟨-, h⟩ := Option.ite_none_left_eq_some.mp h
    obtain ⟨⟨impl, written, res⟩, -, h⟩ := Option.bind_eq_some_iff.mp h
    obtain ⟨clients, -, rfl⟩ := Option.map_eq_some_iff.mp h
    exact ⟨fun d hd => write_ne_nil _ (ht.serving d hd), ht.reading⟩
  | caller c a =>
    obtain ⟨clients, -, rfl⟩ := Option.map_eq_some_iff.mp (Option.ite_none_right_eq_some.mp h).2
    exact ⟨ht.serving, ht.reading⟩
  | change l =>
    obtain rfl := Option.some.inj h
    exact ⟨ht.serving, ht.reading⟩
  | arriveUp c n =>
    obtain rfl := Option.some.inj h
    exact ⟨fun d hd => (update_content (arrive_content _ _) d).symm ▸ ht.serving d hd, ht.reading⟩
  | arriveDown c n =>
    obtain rfl := Option.some.inj h
    refine ⟨ht.serving, fun n d hd => ?_⟩
    obtain ⟨hn, hf, hne⟩ := ht.reading n d hd
    exact ⟨hn, hf, (update_content (arrive_content _ _) d).symm ▸ hne⟩
  | serve c => exact serve_threads ht hx.live hfit h
  | receive c =>
    obtain ⟨hc, h⟩ := Option.ite_none_left_eq_some.mp h
    exact receive_threads hx (Bool.not_eq_true _ ▸ hc) ht h
  | write c b =>
    obtain ⟨-, h⟩ := Option.ite_none_right_eq_some.mp h
    obtain rfl := Option.some.inj h
    exact ⟨fun d hd => write_ne_nil _ (ht.serving d hd), ht.reading⟩

/-- No reply that the service may make to a call is too long for a frame. -/
def Answerable (foreign : C → Bool) (u : Sys P W C N) : Prop :=
  ∀ c, foreign c = false → ∀ i ∈ u.clients.calls c, ∀ w,
    (handleData u.service i.command [] w).resultString.length ≤ maxMessage

/-- A state with one of the messages above it, where no reply to a call is too long for a frame. -/
structure Sound (process : C → N) (foreign : C → Bool) (s : RpcServiceEntry P W × W)
    (u : Sys P W C N) : Prop where
  refines : ∃ x, Refines foreign u x ∧ Inv process foreign s x
  threads : Threads process foreign u
  replies : Answerable foreign u

/-- What the threads and the network leave alone, and what a client's entry gets from them. -/
structure Carried (u v : Sys P W C N) : Prop where
  service : v.service = u.service
  calls : v.clients.calls = u.clients.calls
  entry : ∀ c, v.clients.entry c = u.clients.entry c ∨ ∃ m, Lts.run (Waiting.step P)
    (u.clients.entry c) [.post m, .callback m] = some (v.clients.entry c)

variable {s : RpcServiceEntry P W × W}

omit [DecidableEq N] in
theorem queued_call {x : State P W C N} (hx : Refines foreign u x)
    (hi : Remote.Inv process foreign s x) (hc : foreign c = false) {m : Bytes}
    (hm : m ∈ x.exchange.requests c) : ∃ i ∈ u.clients.calls c, i.command = m := by
  have hissued : x.exchange.issued c = (x.clients.calls c).map Issued.command :=
    (hi.client c hc).issued
  rw [← hi.linear.requests c, hx.clients] at hissued
  exact List.mem_map.mp (hissued ▸ List.mem_append_right _ hm)

omit [DecidableEq N] in
theorem Sound.fits {a : Network.Act P W C} (hu : Sound process foreign s u)
    (ha : isIo foreign a = true) : Fits process u a := by
  obtain ⟨x, hx, hi⟩ := hu.refines
  cases a with
  | serve c =>
    intro m hm
    have hc : foreign c = false := by simpa [isIo] using ha
    have hqueued : m ∈ x.exchange.requests c := by
      cases hnext : nextCall (u.up c).arrived with
      | none => simp [pending, hnext] at hm
      | some out =>
        obtain ⟨call, rest⟩ := out
        obtain ⟨m', ms, hq, rfl, -⟩ := next_message (hx.up c hc) (hx.commands c) hnext
        simp only [pending, hnext] at hm
        rw [← Option.some.inj hm, hq]
        exact List.mem_cons_self
    obtain ⟨i, hic, rfl⟩ := queued_call hx hi hc hqueued
    exact hu.replies c hc i hic u.world
  | invoke c call sync fails => cases ha
  | _ => trivial

theorem Sound.carries {a : Network.Act P W C} (hu : Sound process foreign s u) (ha : isIo foreign a = true)
    (h : Network.step process foreign u a = some v) : Carried u v := by
  obtain ⟨x, hx, -⟩ := hu.refines
  have hfit := hu.fits ha
  cases a with
  | arriveUp c n =>
    obtain rfl := Option.some.inj h
    exact ⟨rfl, rfl, fun _ => .inl rfl⟩
  | arriveDown c n =>
    obtain rfl := Option.some.inj h
    exact ⟨rfl, rfl, fun _ => .inl rfl⟩
  | serve c =>
    obtain ⟨-, rfl⟩ | ⟨rest, -, rfl⟩ | ⟨m, rest, conn, -, -, rfl⟩ := serve_cases hx.live hfit h <;>
      exact ⟨rfl, rfl, fun _ => .inl rfl⟩
  | receive c =>
    obtain ⟨hc, h⟩ := Option.ite_none_left_eq_some.mp h
    obtain ⟨-, rfl⟩ | ⟨m, ms, rest, conn, clients, -, -, -, -, hclients, rfl⟩ :=
      receive_cases hx (Bool.not_eq_true _ ▸ hc) h
    · exact ⟨rfl, rfl, fun _ => .inl rfl⟩
    · obtain ⟨-, hcalls, hother, hentry⟩ := act_cases hclients
      refine ⟨rfl, hcalls, fun d => ?_⟩
      by_cases hd : d = c
      · subst hd
        exact .inr ⟨m, hentry⟩
      · exact .inl (hother d hd)
  | _ => cases ha

theorem Sound.step {a : Network.Act P W C} (hu : Sound process foreign s u) (ha : isIo foreign a = true)
    (h : Network.step process foreign u a = some v) : Sound process foreign s v := by
  obtain ⟨x, hx, hi⟩ := hu.refines
  obtain ⟨y, hy, hv⟩ := step_refines u a v x hx (hu.fits ha) h
  have hcarried := hu.carries ha h
  refine ⟨⟨y, hv, run_invariant (fun _ _ _ hi hs => Remote.step_inv hi hs) hy hi⟩,
    step_threads hx (hu.fits ha) hu.threads h, fun c hc i hi w => ?_⟩
  rw [hcarried.calls] at hi
  rw [hcarried.service]
  exact hu.replies c hc i hi w

theorem Sound.run {as : List (Network.Act P W C)} (hu : Sound process foreign s u)
    (ha : ∀ a ∈ as, isIo foreign a = true) (h : Lts.run (Network.step process foreign) u as = some v) :
    Sound process foreign s v :=
  run_guarded (fun _ _ _ hi ha hs => Sound.step hi ha hs) h ha hu

omit [DecidableEq N] in
theorem serve_message {m rest : Bytes} {conn : TcpIoConnection}
    (hfree : u.serving = none ∨ u.serving = some c) (hconn : u.accepted c = some conn)
    (hlive : conn.Live) (hpos : 1 ≤ m.length)
    (hnext : nextCall (u.up c).arrived = some (.handleData m m.length, rest))
    (hfit : (handleData u.service m [] u.world).resultString.length ≤ maxMessage) :
    ∃ conn', u.serve c = some (u.served c m rest conn') := by
  have harrived : (u.up c).arrived ≠ [] := by
    intro hnil
    rw [hnil, nextCall_nil] at hnext
    cases hnext
  have hstarted : Started { conn with receiveBuffer := [] } := ⟨hlive.1, hlive.2.1⟩
  obtain ⟨buffer, res, hentry⟩ := entry_handleData hstarted m u.world hfit
  have hlen : ¬((m.length : Int) ≤ 0) := by omega
  rw [Sys.serve, if_pos ⟨hfree, harrived⟩, hconn, Option.bind_some, onReadAvailable_open hlive]
  simp only [hnext, Option.map_some, if_neg hlen, Int.toNat_natCast, List.take_length, hentry]
  exact ⟨_, rfl⟩

theorem update_arrive_all (wires : C → Wire) (c : C) :
    Function.update wires c ((wires c).arrive (wires c).sent.length) c =
      ⟨[], (wires c).content⟩ := by
  rw [Function.update_self, arrive_all]

/-- A thread that is not busy elsewhere can bring the next command of a client home. -/
theorem Sound.serve_once (hu : Sound process foreign s u) (hc : foreign c = false)
    (hfree : u.serving = none ∨ u.serving = some c) (hne : (u.up c).content ≠ []) :
    ∃ v, Lts.run (Network.step process foreign) u
        [.arriveUp c (u.up c).sent.length, .serve c] = some v ∧ v.serving = none ∧
      (v.up c).content.length < (u.up c).content.length := by
  obtain ⟨x, hx, hi⟩ := hu.refines
  obtain ⟨conn, hconn⟩ := Option.ne_none_iff_exists'.mp (hx.accepted c hc)
  have hcontent := hx.up c hc
  cases hq : x.exchange.requests c with
  | nil =>
    rw [hq] at hcontent
    exact absurd hcontent hne
  | cons m ms =>
    have hm := hx.commands c
    obtain ⟨i, hic, hcommand⟩ := queued_call hx hi hc (hq ▸ List.mem_cons_self)
    have hfit := hu.replies c hc i hic u.world
    rw [hcommand] at hfit
    rw [hq] at hcontent hm
    have hnext : nextCall (u.up c).content = some (.handleData m m.length, frames ms) := by
      rw [hcontent]
      exact frames_encode hm m List.mem_cons_self (frames ms)
    let u₁ : Sys P W C N :=
      { u with up := Function.update u.up c ((u.up c).arrive (u.up c).sent.length) }
    have hup : u₁.up c = ⟨[], (u.up c).content⟩ := update_arrive_all u.up c
    obtain ⟨conn', hserve⟩ := serve_message (u := u₁) hfree hconn (hx.live c conn hconn)
      (hm m List.mem_cons_self).1 (by rw [hup]; exact hnext) hfit
    have hrun : Lts.run (Network.step process foreign) u
        [.arriveUp c (u.up c).sent.length, .serve c] = some (u₁.served c m (frames ms) conn') := by
      simp only [Lts.run, Network.step, Option.bind_some]
      rw [hserve, Option.bind_some]
    refine ⟨_, hrun, rfl, ?_⟩
    have hafter : ((u₁.served c m (frames ms) conn').up c).content = frames ms := by
      simp only [Sys.served, Function.update_self, hup]
      exact List.append_nil _
    rw [hafter, hcontent, frames, frames, List.flatMap_cons, List.length_append, frame_length]
    simp only [tcpHeaderSize]
    omega

omit [DecidableEq N] in
theorem deliver_some (x : Clients P C N) (c : C) (m : Bytes) : ∃ y, x.deliver c m = some y := by
  simp [Clients.deliver, Clients.act, Lts.run, Waiting.step]

theorem receive_message {m rest : Bytes} {conn : TcpIoConnection}
    (hfree : u.reading (process c) = none ∨ u.reading (process c) = some c)
    (himpl : (u.impl c).ioConnection = some conn) (hlive : conn.Live) (hpos : 1 ≤ m.length)
    (hnext : nextCall (u.down c).arrived = some (.handleData m m.length, rest)) :
    ∃ v, u.receive process c = some v ∧ v.reading (process c) = none ∧ v.up = u.up ∧
      v.down c = { u.down c with arrived := rest } := by
  have harrived : (u.down c).arrived ≠ [] := by
    intro hnil
    rw [hnil, nextCall_nil] at hnext
    cases hnext
  have hmessage : ConnectionLoss.messageOf (some (.handleData m m.length)) = some m := by
    rw [ConnectionLoss.messageOf, if_neg (by omega), Int.toNat_natCast, List.take_length]
  obtain ⟨clients, hclients⟩ := deliver_some u.clients c m
  rw [Sys.receive, if_pos ⟨hfree, harrived⟩, himpl, Option.bind_some, onReadAvailable_open hlive]
  simp only [hnext, Option.map_some, hmessage, hclients]
  exact ⟨_, rfl, Function.update_self .., rfl, Function.update_self ..⟩

theorem Sound.receive_once (hu : Sound process foreign s u) (hc : foreign c = false)
    (hfree : u.reading (process c) = none ∨ u.reading (process c) = some c)
    (hne : (u.down c).content ≠ []) :
    ∃ v, Lts.run (Network.step process foreign) u
        [.arriveDown c (u.down c).sent.length, .receive c] = some v ∧
      v.reading (process c) = none ∧ v.up = u.up ∧
      (v.down c).content.length < (u.down c).content.length := by
  obtain ⟨x, hx, -⟩ := hu.refines
  obtain ⟨conn, himpl, hlive⟩ := hx.impl c hc
  have hcontent := hx.down c
  cases hr : x.exchange.replies c with
  | nil =>
    rw [hr] at hcontent
    exact absurd hcontent hne
  | cons m ms =>
    have hm := hx.replies c
    rw [hr] at hcontent hm
    have hnext : nextCall (u.down c).content = some (.handleData m m.length, frames ms) := by
      rw [hcontent]
      exact frames_encode hm m List.mem_cons_self (frames ms)
    let u₁ : Sys P W C N :=
      { u with down := Function.update u.down c ((u.down c).arrive (u.down c).sent.length) }
    have hdown : u₁.down c = ⟨[], (u.down c).content⟩ := update_arrive_all u.down c
    have hfree₁ : u₁.reading (process c) = none ∨ u₁.reading (process c) = some c := hfree
    obtain ⟨v, hreceive, hfree', hup, hafter⟩ := receive_message hfree₁ himpl hlive
      (hm m List.mem_cons_self).1 (by rw [hdown]; exact hnext)
    refine ⟨v, ?_, hfree', hup, ?_⟩
    · simp only [Lts.run, Network.step, hc, Bool.false_eq_true, if_false, Option.bind_some]
      rw [hreceive, Option.bind_some]
    · rw [hafter, hdown, hcontent]
      simp only [Wire.content, List.append_nil, frames, List.flatMap_cons, List.length_append,
        frame_length, tcpHeaderSize]
      omega

/-- The service's thread, unless a peer holds it, can finish what it is inside of. -/
theorem Sound.free_serving (hu : Sound process foreign s u)
    (hheld : ∀ d, u.serving = some d → foreign d = false) :
    ∃ as v, (∀ a ∈ as, isIo foreign a = true) ∧ Lts.run (Network.step process foreign) u as = some v ∧
      v.serving = none := by
  cases hs : u.serving with
  | none => exact ⟨[], u, List.forall_mem_nil _, rfl, hs⟩
  | some d =>
    obtain ⟨v, hv, hfree, -⟩ := hu.serve_once (hheld d hs) (.inr hs) (hu.threads.serving d hs)
    exact ⟨_, v, by simp [isIo, hheld d hs], hv, hfree⟩

theorem Sound.free_reading (hu : Sound process foreign s u) (n : N) :
    ∃ as v, (∀ a ∈ as, isIo foreign a = true) ∧ Lts.run (Network.step process foreign) u as = some v ∧
      v.reading n = none ∧ v.up = u.up := by
  cases hs : u.reading n with
  | none => exact ⟨[], u, List.forall_mem_nil _, rfl, hs, rfl⟩
  | some d =>
    obtain ⟨rfl, hd, hne⟩ := hu.threads.reading n d hs
    obtain ⟨v, hv, hfree, hup, -⟩ := hu.receive_once hd (.inr hs) hne
    exact ⟨_, v, by simp [isIo, hd], hv, hfree, hup⟩

theorem Sound.drain_up (hu : Sound process foreign s u) (hc : foreign c = false)
    (hfree : u.serving = none) :
    ∃ as v, (∀ a ∈ as, isIo foreign a = true) ∧ Lts.run (Network.step process foreign) u as = some v ∧
      Sound process foreign s v ∧ (v.up c).content = [] := by
  have honce (u : Sys P W C N) (hu : Sound process foreign s u ∧ u.serving = none)
      (hne : (u.up c).content.length ≠ 0) :
      ∃ as v, (∀ a ∈ as, isIo foreign a = true) ∧ Lts.run (Network.step process foreign) u as = some v ∧
        (Sound process foreign s v ∧ v.serving = none) ∧
        (v.up c).content.length < (u.up c).content.length := by
    obtain ⟨v, hv, hfree', hlt⟩ :=
      hu.1.serve_once hc (.inl hu.2) (List.length_pos_iff.mp (Nat.pos_of_ne_zero hne))
    exact ⟨_, v, by simp [isIo, hc], hv, ⟨hu.1.run (by simp [isIo, hc]) hv, hfree'⟩, hlt⟩
  obtain ⟨as, v, has, hv, ⟨hsound, -⟩, hzero⟩ := can_drain _ honce rfl ⟨hu, hfree⟩
  exact ⟨as, v, has, hv, hsound, List.length_eq_zero_iff.mp hzero⟩

theorem Sound.drain_down (hu : Sound process foreign s u) (hc : foreign c = false)
    (hfree : u.reading (process c) = none) :
    ∃ as v, (∀ a ∈ as, isIo foreign a = true) ∧ Lts.run (Network.step process foreign) u as = some v ∧
      v.up = u.up ∧ (v.down c).content = [] := by
  have honce (v : Sys P W C N)
      (hv : Sound process foreign s v ∧ v.reading (process c) = none ∧ v.up = u.up)
      (hne : (v.down c).content.length ≠ 0) :
      ∃ as w, (∀ a ∈ as, isIo foreign a = true) ∧ Lts.run (Network.step process foreign) v as = some w ∧
        (Sound process foreign s w ∧ w.reading (process c) = none ∧ w.up = u.up) ∧
        (w.down c).content.length < (v.down c).content.length := by
    obtain ⟨w, hw, hfree', hup, hlt⟩ :=
      hv.1.receive_once hc (.inl hv.2.1) (List.length_pos_iff.mp (Nat.pos_of_ne_zero hne))
    exact ⟨_, w, by simp [isIo, hc], hw, ⟨hv.1.run (by simp [isIo, hc]) hw, hfree', hup.trans hv.2.2⟩, hlt⟩
  obtain ⟨as, v, has, hv, ⟨-, -, hup⟩, hzero⟩ := can_drain _ honce rfl ⟨hu, hfree, rfl⟩
  exact ⟨as, v, has, hv, hup, List.length_eq_zero_iff.mp hzero⟩

/-- From a sound state the threads and the network can empty the connection of a client. -/
theorem Sound.settles (hu : Sound process foreign s u) (hc : foreign c = false)
    (hheld : ∀ d, u.serving = some d → foreign d = false) :
    ∃ as v, (∀ a ∈ as, isIo foreign a = true) ∧ Lts.run (Network.step process foreign) u as = some v ∧
      (v.up c).content = [] ∧ (v.down c).content = [] := by
  obtain ⟨as₁, u₁, h₁, hrun₁, hfree⟩ := hu.free_serving hheld
  obtain ⟨as₂, u₂, h₂, hrun₂, hsound₂, hup⟩ := (hu.run h₁ hrun₁).drain_up hc hfree
  obtain ⟨as₃, u₃, h₃, hrun₃, hreading, hup₃⟩ := hsound₂.free_reading (process c)
  obtain ⟨as₄, v, h₄, hrun₄, hup₄, hdown⟩ := (hsound₂.run h₃ hrun₃).drain_down hc hreading
  refine ⟨as₁ ++ (as₂ ++ (as₃ ++ as₄)), v, fun a ha => ?_,
    run_trans hrun₁ (run_trans hrun₂ (run_trans hrun₃ hrun₄)), ?_, hdown⟩
  · simp only [List.mem_append] at ha
    exact ha.elim (h₁ a) fun ha => ha.elim (h₂ a) fun ha => ha.elim (h₃ a) (h₄ a)
  · rw [hup₄, hup₃, hup]

/-- Every state that a run reaches from established connections is sound, if no reply of the
service is too long. -/
theorem path_sound {ms : List (Move (Sys P W C N) (Network.Act P W C))}
    (h0 : Established foreign u) (h : Path (Network.step process foreign) u ms v)
    (hfit : ∀ m ∈ ms, Fits process m.pre m.act)
    (hreplies : Answerable foreign v) :
    Sound process foreign (u.service, u.world) v := by
  have hinit : Threads process foreign u := by
    refine ⟨fun d hd => ?_, fun n d hd => ?_⟩
    · rw [h0.serving] at hd
      cases hd
    · rw [h0.reading n] at hd
      cases hd
  have hthreads := h.guarded
    (I := fun u => (∃ x, Refines foreign u x) ∧ Threads process foreign u)
    ⟨⟨_, h0.refines⟩, hinit⟩ (fun u a v hu ha hs => by
    obtain ⟨⟨x, hx⟩, ht⟩ := hu
    obtain ⟨y, -, hy⟩ := step_refines u a v x hx ha hs
    exact ⟨⟨y, hy⟩, step_threads hx ha ht hs⟩) hfit
  exact ⟨path_refines h0 h hfit, hthreads.2, hreplies⟩

omit [DecidableEq C] [DecidableEq N] in
theorem frames_eq_nil {ms : List Bytes} (h : frames ms = []) : ms = [] := by
  cases ms with
  | nil => rfl
  | cons m ms => simp [frames, frame] at h

/-- Every command of the client was handled and every reply to it was taken. -/
structure Settled (s : RpcServiceEntry P W × W) (c : C) (calls : List (Issued P))
    (u : Sys P W C N) : Prop where
  commands : requests c u.past = calls.map Issued.command
  replies : (u.clients.entry c).processed = (server P W).replies c s u.past

omit [DecidableEq N] in
theorem Sound.settled (hu : Sound process foreign s u) (hc : foreign c = false)
    (hup : (u.up c).content = []) (hdown : (u.down c).content = []) :
    Settled s c (u.clients.calls c) u := by
  obtain ⟨x, hx, hi⟩ := hu.refines
  have horder := inOrder_of_refines hx hi
  obtain ⟨queued, hq, hcommands⟩ := horder.commands c hc
  obtain ⟨queued', hq', hreplies⟩ := horder.replies c hc
  obtain rfl := frames_eq_nil (hq.symm.trans hup)
  obtain rfl := frames_eq_nil (hq'.symm.trans hdown)
  rw [List.append_nil] at hcommands hreplies
  exact ⟨hcommands, hreplies⟩

theorem Sound.run_calls {as : List (Network.Act P W C)} (hu : Sound process foreign s u)
    (ha : ∀ a ∈ as, isIo foreign a = true) (h : Lts.run (Network.step process foreign) u as = some v) :
    v.clients.calls = u.clients.calls :=
  (run_guarded (I := fun v => Sound process foreign s v ∧ v.clients.calls = u.clients.calls)
    (fun _ _ _ hi ha hs => ⟨hi.1.step ha hs, (hi.1.carries ha hs).calls.trans hi.2⟩) h ha
    ⟨hu, rfl⟩).2

/-- The caller waits, and has been notified if its reply was processed. -/
def Hopeful (P : MsgPack) (k : Int32) (e : Waiting.ClientEntry) : Prop :=
  e.callers k = .waiting true ∨
    (e.callers k = .waiting false ∧ ∀ str, ¬Waiting.Answer P e k str)

/-- A message that is handed over notifies the caller if it is the reply, and no reply is lost on
a caller that waits. -/
theorem hopeful_deliver {e e' : Waiting.ClientEntry} {k : Int32} {m : Bytes}
    (he : Waiting.Inv P e) (hin : e.inFlight = []) (hk : Hopeful P k e)
    (h : Lts.run (Waiting.step P) e [.post m, .callback m] = some e') : Hopeful P k e' := by
  obtain ⟨-, hprocessed, hcallers⟩ := deliver_step hin h
  have he₁ : Waiting.Inv P { e with inFlight := [m] } := ⟨he.serialer, fun j =>
    (he.caller j).mono fun _ hm => hm⟩
  obtain htrue | ⟨hfalse, hnone⟩ := hk
  · left
    obtain hsame | hnotify := callback_callers P { e with inFlight := [m] } m k
    · rw [hcallers, hsame]
      exact htrue
    · rw [hcallers, hnotify]
      simp only [htrue, Waiting.Phase.notify]
  · by_cases hm : readType P m = MessageType.replay.code ∧ readId P m = k
    · left
      obtain ⟨htype, rfl⟩ := hm
      rw [hcallers]
      exact Waiting.callback_waiting he₁ htype hfalse
    · right
      refine ⟨?_, fun str hstr => ?_⟩
      · rw [hcallers]
        obtain hsame | ⟨htype, -, hnotify⟩ :=
          Waiting.serviceMessageCallback_cases P { e with inFlight := [m] } m
        · rw [hsame]
          exact hfalse
        · rw [hnotify, Waiting.move_callers, Function.update_of_ne fun hid => hm ⟨htype, hid.symm⟩]
          exact hfalse
      · obtain ⟨hmem, htype, hid⟩ := hstr
        rw [hprocessed] at hmem
        rcases List.mem_append.mp hmem with hold | hnew
        · exact hnone str ⟨hold, htype, hid⟩
        · rw [List.mem_singleton.mp hnew] at htype hid
          exact hm ⟨htype, hid⟩

omit [DecidableEq N] in
theorem Sound.clientInv (hu : Sound process foreign s u) (hc : foreign c = false) :
    Waiting.Inv P (u.clients.entry c) ∧ (u.clients.entry c).inFlight = [] := by
  obtain ⟨x, hx, hi⟩ := hu.refines
  rw [← hx.clients]
  exact ⟨(hi.client c hc).entry, (hi.client c hc).inFlight⟩

theorem Sound.run_hopeful {as : List (Network.Act P W C)} {k : Int32}
    (hu : Sound process foreign s u) (hc : foreign c = false)
    (hk : Hopeful P k (u.clients.entry c)) (ha : ∀ a ∈ as, isIo foreign a = true)
    (h : Lts.run (Network.step process foreign) u as = some v) :
    Hopeful P k (v.clients.entry c) := by
  refine (run_guarded (I := fun v => Sound process foreign s v ∧ Hopeful P k (v.clients.entry c))
    (fun v b w hi hb hs => ⟨hi.1.step hb hs, ?_⟩) h ha ⟨hu, hk⟩).2
  obtain ⟨he, hin⟩ := hi.1.clientInv hc
  obtain hsame | ⟨m, hm⟩ := (hi.1.carries hb hs).entry c
  · exact hsame ▸ hi.2
  · exact hopeful_deliver he hin hi.2 hm

theorem caller_step {b : Waiting.Act} {e : Waiting.ClientEntry} (hc : foreign c = false)
    (hb : isCaller b = true) (h : Waiting.step P (u.clients.entry c) b = some e) :
    ∃ v, Network.step process foreign u (.caller c b) = some v ∧ v.clients.entry c = e ∧
      v.past = u.past := by
  refine ⟨{ u with clients := { u.clients with
    entry := Function.update u.clients.entry c e } }, ?_, Function.update_self .., rfl⟩
  rw [Network.step, if_pos ⟨hc, hb⟩, Clients.act, run_single.mpr h]
  rfl

theorem notified_returns {k : Int32} (hu : Sound process foreign s u) (hc : foreign c = false)
    (hk : (u.clients.entry c).callers k = .waiting true) :
    ∃ v str, Lts.run (Network.step process foreign) u
        [.caller c (.resume k), .caller c (.removeItem k)] = some v ∧
      v.past = u.past ∧ (v.clients.entry c).callers k = .returned str 0 ∧
      Waiting.Answer P (u.clients.entry c) k str := by
  have hitem := (hu.clientInv hc).1.caller k
  rw [hk] at hitem
  obtain ⟨str, hitem, hanswer⟩ := hitem
  have hresume : Waiting.step P (u.clients.entry c) (.resume k) =
      some (Waiting.takeResult (u.clients.entry c) k) := if_pos hk
  obtain ⟨v, hv, hentry, hpast⟩ := caller_step hc rfl hresume
  have hresumed : (v.clients.entry c).callers k = .resumed str := by
    simp [hentry, Waiting.takeResult, hitem]
  have hremove : Waiting.step P (v.clients.entry c) (.removeItem k) =
      some ((Waiting.removeResultWaitingItem (v.clients.entry c) k).1.move k (.returned str 0)) := by
    simp only [Waiting.step, hresumed]
  obtain ⟨w, hw, hentry', hpast'⟩ := caller_step hc rfl hremove
  refine ⟨w, str, ?_, hpast'.trans hpast, ?_, hanswer⟩
  · rw [Lts.run, hv, Option.bind_some, run_single.mpr hw]
  · rw [hentry']
    exact Function.update_self ..

/-- The service has handled no message in between. -/
structure Stalled (d : C) (u v : Sys P W C N) : Prop where
  serving : v.serving = some d
  accepted : v.accepted = u.accepted
  world : v.world = u.world
  requests : ∀ c, requests c v.past = requests c u.past

theorem step_stalled {w : Sys P W C N} {a : Network.Act P W C} {d : C}
    (hlive : ∀ conn, u.accepted d = some conn → conn.Live) (hv : Stalled d u v)
    (hnext : nextCall (v.up d).content = none)
    (h : Network.step process foreign v a = some w) : Stalled d u w := by
  cases a with
  | invoke c call sync fails =>
    obtain ⟨-, h⟩ := Option.ite_none_left_eq_some.mp h
    obtain ⟨⟨impl, written, res⟩, -, h⟩ := Option.bind_eq_some_iff.mp h
    obtain ⟨clients, -, rfl⟩ := Option.map_eq_some_iff.mp h
    exact ⟨hv.serving, hv.accepted, hv.world, hv.requests⟩
  | caller c a =>
    obtain ⟨clients, -, rfl⟩ := Option.map_eq_some_iff.mp (Option.ite_none_right_eq_some.mp h).2
    exact ⟨hv.serving, hv.accepted, hv.world, hv.requests⟩
  | change l =>
    obtain rfl := Option.some.inj h
    refine ⟨hv.serving, hv.accepted, hv.world, fun c => ?_⟩
    rw [← hv.requests c, requests_concat, request_change, Option.toList_none, List.append_nil]
  | arriveUp c n =>
    obtain rfl := Option.some.inj h
    exact ⟨hv.serving, hv.accepted, hv.world, hv.requests⟩
  | arriveDown c n =>
    obtain rfl := Option.some.inj h
    exact ⟨hv.serving, hv.accepted, hv.world, hv.requests⟩
  | serve c =>
    obtain ⟨⟨hfree, -⟩, h⟩ := Option.ite_none_right_eq_some.mp h
    obtain rfl : c = d := by
      rw [hv.serving] at hfree
      exact (Option.some.inj (hfree.resolve_left (Option.some_ne_none d))).symm
    obtain ⟨conn, hconn, h⟩ := Option.bind_eq_some_iff.mp h
    have harrived : nextCall (v.up c).arrived = none := by
      cases hsome : nextCall (v.up c).arrived with
      | none => rfl
      | some out =>
        have hmore := nextCall_extends _ out.1 out.2 (v.up c).sent hsome
        rw [show (v.up c).arrived ++ (v.up c).sent = (v.up c).content from rfl, hnext] at hmore
        cases hmore
    rw [hv.accepted] at hconn
    rw [onReadAvailable_open (hlive conn hconn), harrived] at h
    obtain rfl := Option.some.inj h
    exact ⟨rfl, hv.accepted, hv.world, hv.requests⟩
  | receive c =>
    obtain ⟨-, h⟩ := Option.ite_none_left_eq_some.mp h
    obtain ⟨-, h⟩ := Option.ite_none_right_eq_some.mp h
    obtain ⟨conn, -, h⟩ := Option.bind_eq_some_iff.mp h
    split at h
    · obtain rfl := Option.some.inj h
      exact ⟨hv.serving, hv.accepted, hv.world, hv.requests⟩
    · dsimp only at h
      split at h
      · obtain rfl := Option.some.inj h
        exact ⟨hv.serving, hv.accepted, hv.world, hv.requests⟩
      · obtain ⟨clients, -, rfl⟩ := Option.map_eq_some_iff.mp h
        exact ⟨hv.serving, hv.accepted, hv.world, hv.requests⟩
  | write c b =>
    obtain ⟨-, h⟩ := Option.ite_none_right_eq_some.mp h
    obtain rfl := Option.some.inj h
    exact ⟨hv.serving, hv.accepted, hv.world, hv.requests⟩

/-- While the service's thread is inside the read of a message that does not come to its end, it
handles no other: whatever the other clients and peers do, nothing of theirs is run. -/
theorem stalled_by_peer {ms ns : List (Move (Sys P W C N) (Network.Act P W C))} {w : Sys P W C N}
    {d : C} (h0 : Established foreign u) (h : Path (Network.step process foreign) u ms v)
    (hfit : ∀ m ∈ ms, Fits process m.pre m.act) (hd : v.serving = some d)
    (h' : Path (Network.step process foreign) v ns w)
    (hpart : ∀ m ∈ ns, nextCall (m.pre.up d).content = none) : Stalled d v w := by
  obtain ⟨x, hx, -⟩ := path_refines h0 h hfit
  exact h'.guarded (G := fun u _ => nextCall (u.up d).content = none)
    ⟨hd, rfl, rfl, fun _ => rfl⟩
    (fun _ _ _ hi hnext hs => step_stalled (hx.live d) hi hnext hs) hpart

/-! The client of the adding service, beside a peer that writes one byte. -/

def peerSys : Sys standard Unit Bool Unit where
  service := addService
  world := ()
  impl _ := ⟨some (connectedTo 4)⟩
  accepted _ := some ⟨.started, [], [], 5, .server, true⟩

theorem peerSys_established : Established id peerSys where
  past := rfl
  clients := rfl
  impl _ _ := ⟨_, rfl, rfl, by decide, rfl⟩
  accepted _ _ := Option.some_ne_none _
  live _ _ h := by
    obtain rfl := Option.some.inj h
    exact ⟨rfl, by decide, rfl⟩
  up _ _ := rfl
  down _ := rfl
  serving := rfl
  reading _ := rfl

instance (u : Sys standard Unit Bool Unit) (a : Network.Act standard Unit Bool) :
    Decidable (Fits (fun _ => ()) u a) := by
  cases a <;> unfold Fits <;> infer_instance

theorem waiting_run : (run (guarded (Network.step (fun _ => ()) id) (Fits fun _ => ())) peerSys
    [.invoke false (intCall addName) true false, .caller false (.addItem 1),
      .caller false (.wait 1)]).any (fun v => decide ((v.clients.calls false).length = 1 ∧
        (∀ i ∈ v.clients.calls false, i.msgId = 1 ∧
          (handleData v.service i.command [] ()).resultString.length ≤ maxMessage) ∧
        v.serving = none ∧ (v.clients.entry false).callers 1 = .waiting false ∧
        (v.clients.entry false).processed = [])) = true := by
  decide +kernel

theorem waiting_path : ∃ ms v i, Path (Network.step (fun _ => ()) id) peerSys ms v ∧
    (∀ m ∈ ms, Fits (fun _ => ()) m.pre m.act) ∧ Answerable id v ∧ v.serving = none ∧
    v.clients.calls false = [i] ∧ (v.clients.entry false).callers i.msgId = .waiting false ∧
    (v.clients.entry false).processed = [] := by
  obtain ⟨v, hv, hdecide⟩ := (Option.any_eq_true _ _).mp waiting_run
  obtain ⟨hlen, hcalls, hfree, hwaits, hnone⟩ := of_decide_eq_true hdecide
  obtain ⟨ms, hp, hfit⟩ := (meets_of_run hv).path
  obtain ⟨i, hi⟩ := List.length_eq_one_iff.mp hlen
  have hone := hcalls i (by rw [hi]; exact List.mem_singleton.mpr rfl)
  refine ⟨ms, v, i, hp, hfit, fun c hc j hj _ => ?_, hfree, hi, hone.1 ▸ hwaits, hnone⟩
  obtain rfl : c = false := hc
  exact (hcalls j hj).2

theorem peer_run : ((run (guarded (Network.step (fun _ => ()) id) (Fits fun _ => ())) peerSys
    [.write true [1], .arriveUp true 1, .serve true]).bind fun v =>
      (run (guarded (Network.step (fun _ => ()) id)
        fun u _ => nextCall (u.up true).content = none) v
        [.invoke false (intCall addName) true false, .arriveUp false 100, .serve true]).map
          fun w => (v, w)).any (fun p => decide (p.1.serving = some true ∧
            (p.2.up false).arrived ≠ [])) = true := by
  decide +kernel

theorem stalled_by_peer_byte : ∃ ms ns v w, Path (Network.step (fun _ => ()) id) peerSys ms v ∧
    Path (Network.step (fun _ => ()) id) v ns w ∧ (w.up false).arrived ≠ [] ∧
    Stalled true v w := by
  obtain ⟨p, hp, hdecide⟩ := (Option.any_eq_true _ _).mp peer_run
  obtain ⟨v, hv, hrest⟩ := Option.bind_eq_some_iff.mp hp
  obtain ⟨w, hw, rfl⟩ := Option.map_eq_some_iff.mp hrest
  obtain ⟨hserving, harrived⟩ := of_decide_eq_true hdecide
  obtain ⟨ms, hpath, hfit⟩ := (meets_of_run hv).path
  obtain ⟨ns, hpath', hpart⟩ := (meets_of_run hw).path
  exact ⟨ms, ns, v, w, hpath, hpath', harrived,
    stalled_by_peer peerSys_established hpath hfit hserving hpath' hpart⟩

end DericRpc.Progress
