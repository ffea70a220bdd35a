import DericRpc.IoTable
import DericRpc.Sockets

/-! One call of TcpIoServer::onConnectRequest with its result: when it accepts a connection
into m_clients, m_ioMembers and epoll alike, or else leaves nothing of it. -/
namespace DericRpc.Accept
open Common Connection Io IoServer IoTable Sockets

/-- `sock` is what accept returns, `created` whether the service gives a client, `alive`
whether that finds its service, `refused` whether epoll_ctl fails. -/
def onConnectRequest (u : Process) (sock : Int) (created alive refused : Bool) :
    Option (Process × Int) :=
  if u.server.state ≠ .started then some (u, -1)
  else if u.server.client = false then some (u, -1)
  else if sock < 0 then some (u, -1)
  else
    let n := u.ledger.count
    if created = false then some (Sockets.openFd u sock, -1)
    else
      let v := createIoConnectionClient (Sockets.openFd u sock) n sock
      (v.objects n).bind fun o => (startIoClient v n o alive refused).map fun (w, res) =>
        if res < 0 then
          (Sockets.closeFd (removeIoConnectionClient w (u.clientIndex + 1)) sock, res)
        else (w, res)

/-- A started server whose accept returns a socket: its number is not watched, and its
connection is one that the table does not have. -/
structure Accepts (u : Process) (sock : Int) : Prop where
  started : u.server.state = .started
  client : u.server.client = true
  sock_nonneg : 0 ≤ sock
  unwatched : u.kernel.interest sock = false
  fresh : ∀ fd, u.io.ioMembers fd ≠ some (.connection u.ledger.count)

/-- m_clients has one new entry, its connection is started over the socket, and IoModule has
that connection under the socket's number in the table and in epoll. -/
def Connected (u v : Process) (sock : Int) : Prop :=
  ∃ clientId n o, (clientId, n) ∉ u.clients ∧
    (∀ c, c ∈ v.clients ↔ c = (clientId, n) ∨ c ∈ u.clients) ∧
    v.objects n = some o ∧ o.owner = .entry clientId ∧ o.conn.state = .started ∧
    o.conn.socketFd = sock ∧ v.io.ioMembers sock = some (.connection n) ∧
    v.kernel.interest sock = true

/-- m_clients and m_ioMembers are as before, and the socket is closed. -/
def Refused (u v : Process) (sock : Int) : Prop :=
  (∀ c, c ∈ v.clients ↔ c ∈ u.clients) ∧ v.io.ioMembers = u.io.ioMembers ∧
    v.kernel.isOpen sock = false

def AllOrNothing (u v : Process) (sock res : Int) : Prop :=
  (0 ≤ res → Connected u v sock) ∧ (res < 0 → Refused u v sock)

/-- The service gives a client under an id that m_clients does not have, and a client that
finds its service is added: the table does not have the number, and epoll takes it. -/
def Smooth (u : Process) (sock : Int) (created alive refused : Bool) : Prop :=
  created = true ∧ (∀ n, (u.clientIndex + 1, n) ∉ u.clients) ∧
    (alive = true → u.io.ioMembers sock = none ∧
      Reaches u.io (u.kernel.openFd sock) sock refused)

theorem onConnectRequest_state (u : Process) (sock : Int) (created alive refused : Bool) :
    (onConnectRequest u sock created alive refused).map Prod.fst =
      Sockets.onConnectRequest u sock created alive refused := by
  unfold onConnectRequest Sockets.onConnectRequest
  split_ifs
  · rfl
  · rfl
  · rfl
  · rfl
  · simp only [Option.map_bind]
    congr 1
    funext o
    simp only [Function.comp_apply, Option.map_map]
    congr 1
    funext out
    simp only [Function.comp_apply]
    split_ifs <;> rfl

/-- Only a client that does not find its service keeps startIoClient from succeeding. -/
theorem onConnectRequest_res {u v : Process} {sock res : Int} {created alive refused : Bool}
    (hu : Accepts u sock) (h : onConnectRequest u sock created alive refused = some (v, res)) :
    res = if created = true ∧ alive = true then 0 else -1 := by
  unfold onConnectRequest at h
  rw [if_neg (not_not.mpr hu.started), if_neg (by rw [hu.client]; decide),
    if_neg (not_lt.mpr hu.sock_nonneg)] at h
  cases created with
  | false =>
    rw [if_pos rfl] at h
    exact (Prod.mk.inj (Option.some.inj h)).2.symm
  | true =>
    rw [if_neg (by decide)] at h
    have hobject : (createIoConnectionClient (Sockets.openFd u sock) u.ledger.count sock).objects
        u.ledger.count = some ⟨setIoFd { ioClient := true } sock, .entry (u.clientIndex + 1)⟩ :=
      Function.update_self ..
    obtain ⟨o, ho, hmap⟩ := Option.bind_eq_some_iff.mp h
    obtain rfl := Option.some.inj (hobject.symm.trans ho)
    obtain ⟨⟨w, res'⟩, hstart, hout⟩ := Option.map_eq_some_iff.mp hmap
    have hres : res = res' := by
      dsimp only at hout
      split_ifs at hout <;> exact (Prod.mk.inj hout).2.symm
    rw [hres]
    unfold startIoClient at hstart
    cases alive with
    | false =>
      rw [if_pos rfl] at hstart
      exact (Prod.mk.inj (Option.some.inj hstart)).2.symm
    | true =>
      rw [if_neg (by decide), startAccepted_ok hu.sock_nonneg, if_neg (lt_irrefl 0)] at hstart
      obtain ⟨⟨_, _, _⟩, -, hstarted⟩ := Option.map_eq_some_iff.mp hstart
      exact (Prod.mk.inj hstarted).2.symm

theorem mem_remove {u : Process} {clientId : UInt32} {c : UInt32 × Nat} :
    c ∈ (removeIoConnectionClient u clientId).clients ↔ c ∈ u.clients ∧ c.1 ≠ clientId := by
  simp [removeIoConnectionClient]

theorem mem_create {u : Process} {n : Nat} {sock : Int} {c : UInt32 × Nat} :
    c ∈ (createIoConnectionClient u n sock).clients ↔
      c = (u.clientIndex + 1, n) ∨ (c ∈ u.clients ∧ c.1 ≠ u.clientIndex + 1) := by
  simp [createIoConnectionClient, removeIoConnectionClient]

/-- A client that is made and taken back leaves m_clients as it was where its id is new. -/
theorem remove_create_iff {u : Process} {n : Nat} {sock : Int} :
    (∀ c, c ∈ (removeIoConnectionClient (createIoConnectionClient u n sock)
      (u.clientIndex + 1)).clients ↔ c ∈ u.clients) ↔ ∀ m, (u.clientIndex + 1, m) ∉ u.clients := by
  simp only [mem_remove, mem_create]
  constructor
  · exact fun h m hm => ((h _).mpr hm).2 rfl
  · intro h c
    constructor
    · rintro ⟨rfl | hold, hne⟩
      · exact absurd rfl hne
      · exact hold.1
    · intro hold
      have hne : c.1 ≠ u.clientIndex + 1 := fun he => h c.2 (by rw [← he]; exact hold)
      exact ⟨.inr ⟨hold, hne⟩, hne⟩

theorem one_more_iff (u : Process) {n : Nat} (sock : Int) {c : UInt32 × Nat} (hc : c ∉ u.clients) :
    (∀ x, x ∈ (createIoConnectionClient u n sock).clients ↔ x = c ∨ x ∈ u.clients) ↔
      c = (u.clientIndex + 1, n) ∧ ∀ m, (u.clientIndex + 1, m) ∉ u.clients := by
  simp only [mem_create]
  constructor
  · intro h
    have hnew : c = (u.clientIndex + 1, n) :=
      ((h c).mpr (.inl rfl)).resolve_right fun hold => hc hold.1
    refine ⟨hnew, fun m hm => ?_⟩
    rcases (h _).mpr (.inr hm) with he | hold
    · exact hc (by rw [hnew, ← he]; exact hm)
    · exact hold.2 rfl
  · rintro ⟨rfl, h⟩ x
    refine or_congr_right ⟨And.left, fun hold => ⟨hold, fun he => h x.2 ?_⟩⟩
    rw [← he]
    exact hold

/-- A member whose number is neither in the table nor watched is afterwards in both exactly
when epoll takes it; an fd of the table stays with its member. -/
theorem addIoMember_both_iff {io io' : IoModule Member} {k k' : Kernel} {m : Member} {fd res : Int}
    {refused : Bool} (hfd : 0 ≤ fd) (hwatch : k.interest fd = false) (hm : io.ioMembers fd ≠ some m)
    (h : addIoMember io k (some (m, fd)) refused = some (io', k', res)) :
    (io'.ioMembers fd = some m ∧ k'.interest fd = true) ↔
      io.ioMembers fd = none ∧ Reaches io k fd refused := by
  cases hf : io.ioMembers fd with
  | some old =>
    rcases addIoMember_cases hfd h with ⟨_, -, rfl, -, -⟩ | ⟨hnone, -⟩
    · exact iff_of_false (fun hboth => hm hboth.1) fun hnone => by cases hnone.1
    · cases hf.symm.trans hnone
  | none =>
    obtain ⟨k₁, hinterest, hnew⟩ :=
      addIoMember_new (k := k) (m := m) refused (not_lt.mpr hfd) (addIoMember_mutex hfd h) hf
    rw [hnew] at h
    obtain ⟨rfl, hrest⟩ := Prod.mk.inj (Option.some.inj h)
    obtain ⟨rfl, -⟩ := Prod.mk.inj hrest
    rw [hinterest]
    by_cases hr : Reaches io k fd refused
    · rw [(modifyEpollEvent_reaches hr).1 hwatch]
      exact iff_of_true ⟨Function.update_self .., Function.update_self ..⟩ ⟨rfl, hr⟩
    · rw [modifyEpollEvent_fails hr]
      refine iff_of_false (fun hboth => ?_) fun hall => hr hall.2
      cases hwatch.symm.trans hboth.2

/-- For every state of a started server and all outcomes of the calls: accepting a
connection is all or nothing exactly when it goes smoothly. -/
theorem allOrNothing_iff {u v : Process} {sock res : Int} {created alive refused : Bool}
    (hu : Accepts u sock) (h : onConnectRequest u sock created alive refused = some (v, res)) :
    AllOrNothing u v sock res ↔ Smooth u sock created alive refused := by
  have hres := onConnectRequest_res hu h
  have hstate : Sockets.onConnectRequest u sock created alive refused = some v := by
    rw [← onConnectRequest_state, h]
    rfl
  rcases onConnectRequest_cases hstate with ⟨-, hno⟩ | ⟨-, ⟨rfl, rfl⟩ | ⟨rfl, rfl, rfl⟩ |
    ⟨rfl, rfl, io, k, out, hadd, rfl⟩⟩
  · exact absurd ⟨hu.started, hu.client, hu.sock_nonneg⟩ hno
  · refine iff_of_false (fun hall => ?_) fun hsmooth => by cases hsmooth.1
    have hclosed := (hall.2 (by simp [hres])).2.2
    simp [Sockets.openFd, Kernel.openFd] at hclosed
  · obtain rfl : -1 = res := by simpa using hres.symm
    have hclosed : (Kernel.close (u.kernel.openFd sock) sock).isOpen sock = false :=
      Function.update_self ..
    have hclients : (∀ c, c ∈ (removeIoConnectionClient (createIoConnectionClient
        (Sockets.openFd u sock) u.ledger.count sock) (u.clientIndex + 1)).clients ↔
        c ∈ u.clients) ↔ ∀ m, (u.clientIndex + 1, m) ∉ u.clients :=
      remove_create_iff (u := Sockets.openFd u sock)
    constructor
    · intro hall
      exact ⟨rfl, hclients.mp (hall.2 (by decide)).1, fun halive => by cases halive⟩
    · intro hsmooth
      exact ⟨fun hpos => absurd hpos (by decide), fun _ => ⟨hclients.mpr hsmooth.2.1, rfl, hclosed⟩⟩
  · obtain rfl : 0 = res := by simpa using hres.symm
    have hwatch : (u.kernel.openFd sock).interest sock = false := hu.unwatched
    have hboth := addIoMember_both_iff hu.sock_nonneg hwatch (hu.fresh sock) hadd
    constructor
    · intro hall
      obtain ⟨id, n, o, hnew, hclients, ho, howner, hstate, hfd, htable, hwatched⟩ := hall.1 le_rfl
      obtain ⟨he, hunused⟩ := (one_more_iff u sock hnew).mp hclients
      obtain ⟨rfl, rfl⟩ := Prod.mk.inj he
      exact ⟨rfl, hunused, fun _ => hboth.mp ⟨htable, hwatched⟩⟩
    · rintro ⟨-, hunused, hepoll⟩
      obtain ⟨htable, hwatched⟩ := hboth.mpr (hepoll rfl)
      refine ⟨fun _ => ⟨u.clientIndex + 1, u.ledger.count, _, hunused _, ?_,
        Function.update_self .., rfl, rfl, rfl, htable, hwatched⟩, fun hneg => absurd hneg (lt_irrefl 0)⟩
      exact (one_more_iff u sock (hunused _)).mpr ⟨rfl, hunused⟩

/-- A started service whose listener has socket 3, over a running IoModule. -/
def listening : Process where
  state := .started
  server := {
    state := .started, port := 80, maxConnectionNumber := 8, socketFd := 3, client := true,
    ioEntry := some 3 }
  io := {
    state := .started, wakeUpPipeFd := (5, 6), epollFd := 4, epollEvents := true
    ioMembers := fun fd => if fd = 3 then some (.listener 3) else none }
  kernel := {
    isOpen := fun fd => decide (3 ≤ fd ∧ fd ≤ 6)
    interest := fun fd => decide (fd = 3 ∨ fd = 5) }

theorem listening_accepts : Accepts listening 7 where
  started := rfl
  client := rfl
  sock_nonneg := by decide
  unwatched := rfl
  fresh fd := by
    simp only [listening]
    split_ifs <;> simp

theorem allOrNothing_iff_listening : ∃ v res, 0 ≤ res ∧
    onConnectRequest listening 7 true true false = some (v, res) ∧ AllOrNothing listening v 7 res := by
  obtain ⟨v, hv⟩ : ∃ v, onConnectRequest listening 7 true true false = some (v, 0) := ⟨_, rfl⟩
  refine ⟨v, 0, le_rfl, hv, (allOrNothing_iff listening_accepts hv).mpr ⟨rfl, fun n => ?_, fun _ => ?_⟩⟩
  · exact List.not_mem_nil
  · exact ⟨rfl, by decide, by decide, by decide, rfl, rfl, rfl⟩

/-- Where epoll refuses the accepted socket the call succeeds all the same. -/
theorem unwatched_connection :
    ¬ ∀ (u v : Process) (sock res : Int) (created alive refused : Bool), Accepts u sock →
      onConnectRequest u sock created alive refused = some (v, res) → AllOrNothing u v sock res := by
  intro h
  obtain ⟨v, hv, hwatched⟩ : ∃ v, onConnectRequest listening 7 true true true = some (v, 0) ∧
      v.kernel.interest 7 = false := ⟨_, rfl, rfl⟩
  obtain ⟨id, n, o, -, -, -, -, -, -, -, hinterest⟩ :=
    (h _ _ _ _ _ _ _ listening_accepts hv).1 le_rfl
  cases hwatched.symm.trans hinterest

end DericRpc.Accept
