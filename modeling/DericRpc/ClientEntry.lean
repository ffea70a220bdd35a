import DericRpc.Descriptors

/-! RpcClientEntry over its whole life: init, deinit, connect and disconnect, and what becomes of
the connections of an RpcClientImpl that is destroyed. -/
namespace DericRpc.ClientEntry
open ByteString Common Connection Io Lts ClientLife Descriptors

/-- `clientImpl` tells whether m_clientImpl is set. The client's connection is that of this
RpcClientImpl; its objects are the connections of the earlier ones too. -/
structure RpcClientEntry where
  clientImpl : Bool := false
  client : Client

inductive Act where
  | init (serviceBook : Bool)
  | deinit
  | client (a : ClientLife.Act)

/-- The destructor drops m_ioConnection and does not stop it, and no m_ioClient.lock() finds the
object any more. -/
def destroy (u : Client) : Client :=
  { u with
    objects := fun id => (u.objects id).map fun o => { o with conn := { o.conn with ioClient := false } }
    ioConnection := none }

/-- What is left when m_clientImpl is given up. -/
def RpcClientEntry.resetImpl (u : RpcClientEntry) : Client :=
  if u.clientImpl = true then destroy u.client else u.client

/-- `serviceBook` tells whether the configuration has a ServiceBook. The RpcClientImpl of an
earlier init is replaced. -/
def init (u : RpcClientEntry) (serviceBook : Bool) : RpcClientEntry × Int :=
  if serviceBook = false then (u, -1) else (⟨true, u.resetImpl⟩, 0)

def deinit (u : RpcClientEntry) : RpcClientEntry × Int := (⟨false, u.resetImpl⟩, 0)

/-- The calls that need m_clientImpl. -/
def needsImpl : ClientLife.Act → Bool
  | .connect .. | .disconnect => true
  | _ => false

/-- connect and disconnect return -1 where there is no RpcClientImpl. -/
def step (u : RpcClientEntry) : Act → Option RpcClientEntry
  | .init serviceBook => some (init u serviceBook).1
  | .deinit => some (deinit u).1
  | .client a =>
    if needsImpl a = true ∧ u.clientImpl = false then some u
    else (ClientLife.step u.client a).map fun client => { u with client := client }

/-- Nothing was ever connected, and the module's pipe is open. -/
structure Fresh (u : RpcClientEntry) : Prop where
  client : ClientLife.Fresh u.client
  pipe : u.client.kernel.isOpen u.client.io.wakeUpPipeFd.1 = true

/-- A connection in the table that nobody owns. It stays open and watched, its unread bytes stay
unread, and its events do nothing and are reported again. -/
structure Abandoned (u : RpcClientEntry) (id : Nat) (fd : Int) (unread : Bytes) : Prop where
  unknown : u.client.ioConnection ≠ some id
  isOpen : u.client.kernel.isOpen fd = true
  member : u.client.io.ioMembers fd = some id
  kept : ∃ o, u.client.objects id = some o ∧ unread <+: o.incoming.bytes
  reported : u.client.batch = [] → ∃ v, step u (.client (.epollWait [(fd, false)])) = some v
  ignored : ∀ error rest errors, u.client.batch = (fd, error) :: rest →
    u.client.io.ioMembersMutex = false → step u (.client (.dispatch errors)) =
      some { u with client := { u.client with batch := rest, last := .other } }

/-- The client object behind the connection is gone, with these bytes still to be read. -/
def Orphan (unread : Bytes) (o : ConnObject) : Prop :=
  o.conn.ioClient = false ∧ unread <+: o.incoming.bytes

variable {u v : RpcClientEntry} {id : Nat} {fd : Int} {unread : Bytes}

theorem socket_destroy {u : Client} : Socket (destroy u) id fd ↔ Socket u id fd := by
  cases ho : u.objects id <;> simp [Socket, destroy, ho, Connected]

theorem destroy_held {u : Client} (hu : Held u) : Held (destroy u) := by
  have hinv : Inv (destroy u) := by
    refine ⟨fun id o ho => ?_, hu.inv.registered, nofun, hu.inv.watched, hu.inv.pending⟩
    obtain ⟨o', ho', -⟩ := Option.map_eq_some_iff.mp ho
    exact hu.inv.objects id o' ho'
  exact hu.fewer hinv (fun _ _ hs => socket_destroy.1 hs) rfl (fun _ _ _ => ⟨rfl, rfl⟩) nofun

theorem destroy_foreign {u : Client} (hf : Foreign u fd) : Foreign (destroy u) fd :=
  ⟨hf.1, fun id hs => hf.2 id (socket_destroy.1 hs)⟩

theorem step_cases {a : Act} (h : step u a = some v) :
    v.client = u.client ∨ v.client = destroy u.client ∨
      ∃ b, a = .client b ∧ ClientLife.step u.client b = some v.client := by
  have hreset (u : RpcClientEntry) :
      u.resetImpl = u.client ∨ u.resetImpl = destroy u.client := by
    unfold RpcClientEntry.resetImpl
    split_ifs
    · exact .inr rfl
    · exact .inl rfl
  cases a with
  | init serviceBook =>
    cases serviceBook with
    | false =>
      obtain rfl := Option.some.inj h
      exact .inl rfl
    | true =>
      obtain rfl := Option.some.inj h
      exact (hreset u).imp_right .inl
  | deinit =>
    obtain rfl := Option.some.inj h
    exact (hreset u).imp_right .inl
  | client b =>
    dsimp only [step] at h
    split_ifs at h
    · obtain rfl := Option.some.inj h
      exact .inl rfl
    · obtain ⟨client, hclient, rfl⟩ := Option.map_eq_some_iff.mp h
      exact .inr (.inr ⟨b, rfl, hclient⟩)

theorem step_keeps {I : Client → Prop} {a : Act} (hi : I u.client)
    (hdestroy : I (destroy u.client))
    (hstep : ∀ b w, a = .client b → ClientLife.step u.client b = some w → I w)
    (h : step u a = some v) : I v.client := by
  obtain hv | hv | ⟨b, ha, hv⟩ := step_cases h
  · rwa [hv]
  · rwa [hv]
  · exact hstep b v.client ha hv

/-- The connections are as they should be, and none is over the module's pipe. -/
def Sound (u : Client) : Prop := Held u ∧ Foreign u u.io.wakeUpPipeFd.1

theorem Fresh.sound (h : Fresh u) : Sound u.client := by
  refine ⟨fresh_held h.client, h.pipe, fun id hs => ?_⟩
  obtain ⟨o, ho, -⟩ := hs
  cases (h.client.objects id).symm.trans ho

theorem step_sound {a : Act} (hu : Sound u.client) (h : step u a = some v) : Sound v.client := by
  obtain ⟨hheld, hpipe⟩ := hu
  refine step_keeps ⟨hheld, hpipe⟩ ⟨destroy_held hheld, destroy_foreign hpipe⟩ ?_ h
  intro b w _ hw
  have hforeign := step_foreign hheld hpipe hw
  rw [← step_pipe hw] at hforeign
  exact ⟨step_held hheld hw, hforeign⟩

theorem react_orphan {o : ConnObject} (ho : Orphan unread o) (error : Bool) (errors : RecvErrors) :
    react o error errors = some (o, none) := by
  have hlive : ¬o.conn.Live := by
    rintro ⟨-, -, hclient⟩
    cases ho.1.symm.trans hclient
  cases error with
  | true => simp [react, onIoError, ho.1]
  | false => simp [react, onReadAvailable_dead hlive]

theorem step_orphan {a : Act} (hu : Held u.client) (hl : Lost (Orphan unread) u.client id fd)
    (h : step u a = some v) : Lost (Orphan unread) v.client id fd := by
  refine step_keeps hl ?_ (fun b w _ hw => step_lost hu hl ?_ ?_ ?_ hw) h
  · obtain ⟨o, ho, hconn, hfd, -, hbytes⟩ := hl.object
    refine ⟨⟨{ o with conn := { o.conn with ioClient := false } }, ?_, hconn, hfd, rfl, hbytes⟩,
      hl.member, hl.pipe, nofun⟩
    simp [destroy, ho]
  · intro o o' error errors call _ ho hreact
    rw [react_orphan ho] at hreact
    obtain ⟨rfl, -⟩ := Prod.mk.inj (Option.some.inj hreact)
    exact ho
  · exact fun o bytes _ ho => ⟨ho.1, ho.2.trans (List.prefix_append ..)⟩
  · exact fun o ho => ho

theorem abandoned_of_lost (hu : Held u.client) (h : Lost (Orphan unread) u.client id fd) :
    Abandoned u id fd unread where
  unknown := h.unknown
  isOpen := hu.isOpen id fd h.socket
  member := h.member
  kept := by
    obtain ⟨o, ho, -, -, -, hbytes⟩ := h.object
    exact ⟨o, ho, hbytes⟩
  reported hbatch := by
    obtain ⟨w, hw⟩ := h.reported hu hbatch
    exact ⟨{ u with client := w }, by simp [step, needsImpl, hw]⟩
  ignored error rest errors hbatch hmutex := by
    obtain ⟨o, ho, -, -, horphan⟩ := h.object
    have hreact := react_orphan horphan error errors
    have hself : Function.update u.client.objects id (some o) = u.client.objects := by
      rw [← ho, Function.update_eq_self]
    simp [step, needsImpl, ClientLife.step, dispatch, dispatchEvent, hbatch, h.pipe, hmutex,
      h.member, ho, hreact, Client.setObject, hself]

/-- A connection that is still there when deinit, or another init, gives its client up is never
read again: whatever is called and whatever arrives afterwards, it stays open and in the table,
nobody can stop it, and each of its events is passed over and can be reported at once again. -/
theorem abandoned_connection {u₀ u v w : RpcClientEntry} {ms ns : List (Move RpcClientEntry Act)}
    {a : Act} {id : Nat} {o : ConnObject} (hfresh : Fresh u₀) (hp : Path step u₀ ms u)
    (himpl : u.clientImpl = true) (hcurrent : u.client.ioConnection = some id)
    (ho : u.client.objects id = some o) (hmember : u.client.io.ioMembers o.conn.socketFd = some id)
    (ha : a = .deinit ∨ a = .init true) (h : step u a = some v) (hq : Path step v ns w) :
    Abandoned w id o.conn.socketFd o.incoming.bytes := by
  have hu : Sound u.client := hp.invariant hfresh.sound fun _ _ _ => step_sound
  have hconn : Connected o.conn := by
    obtain ⟨fd, o', ho', hconn, -⟩ := hu.1.current id hcurrent
    obtain rfl := Option.some.inj (ho.symm.trans ho')
    exact hconn
  have hdestroyed : v.client = destroy u.client := by
    obtain rfl | rfl := ha
    · obtain rfl := Option.some.inj h
      exact if_pos himpl
    · obtain rfl := Option.some.inj h
      exact if_pos himpl
  have hlost : Lost (Orphan o.incoming.bytes) v.client id o.conn.socketFd := by
    have hpipe : o.conn.socketFd ≠ u.client.io.wakeUpPipeFd.1 :=
      fun hfd => hu.2.2 id ⟨o, ho, hconn, hfd⟩
    have hobject : (destroy u.client).objects id =
        some { o with conn := { o.conn with ioClient := false } } := by simp [destroy, ho]
    rw [hdestroyed]
    exact ⟨⟨_, hobject, hconn, rfl, rfl, List.prefix_rfl⟩, hmember, hpipe, nofun⟩
  obtain ⟨hw, hend⟩ : Sound w.client ∧ Lost (Orphan o.incoming.bytes) w.client id o.conn.socketFd :=
    hq.invariant (I := fun w => Sound w.client ∧
      Lost (Orphan o.incoming.bytes) w.client id o.conn.socketFd) ⟨step_sound hu h, hlost⟩
      fun _ _ _ hi hstep => ⟨step_sound hi.1 hstep, step_orphan hi.1.1 hi.2 hstep⟩
  exact abandoned_of_lost hw.1 hend

def newEntry : RpcClientEntry := { client := newClient }

theorem newEntry_fresh : Fresh newEntry := ⟨newClient_fresh, rfl⟩

/-- Two bytes arrive before a deinit, one behind it, and the connection is reported. -/
theorem abandoned_connection_deinit : ∃ ms ns u v w o, Path step newEntry ms u ∧
    step u .deinit = some v ∧ Path step v ns w ∧ u.client.objects 0 = some o ∧
      o.incoming.bytes = [1, 2] ∧ Abandoned w 0 6 [1, 2] := by
  have hrun : ∃ u v w o, run step newEntry [.init true, .client (.connect 80 6 true false),
      .client (.arrive 0 [1, 2])] = some u ∧ step u .deinit = some v ∧
      run step v [.client (.arrive 0 [3]), .client (.epollWait [(6, false)]),
        .client (.dispatch {})] = some w ∧ u.clientImpl = true ∧ u.client.ioConnection = some 0 ∧
      u.client.objects 0 = some o ∧ o = ⟨connectedTo 6, ⟨[1, 2], false⟩, true⟩ ∧
      u.client.io.ioMembers 6 = some 0 := ⟨_, _, _, _, rfl, rfl, rfl, rfl, rfl, rfl, rfl, rfl⟩
  obtain ⟨u, v, w, o, hu, hdeinit, hw, himpl, hcurrent, ho, rfl, hmember⟩ := hrun
  obtain ⟨ms, hp, -⟩ := path_of_run hu
  obtain ⟨ns, hq, -⟩ := path_of_run hw
  exact ⟨ms, ns, u, v, w, _, hp, hdeinit, hq, ho, rfl,
    abandoned_connection newEntry_fresh hp himpl hcurrent ho hmember (.inl rfl) hdeinit hq⟩

end DericRpc.ClientEntry
