import DericRpc.Descriptors

/-! A client whose peer has closed a connection: the connection is never taken out of the table,
and the end of its stream is reported over and over. -/
namespace DericRpc.AfterClose
open ByteString Common Connection Io Lts ClientLife Descriptors

/-- Nothing is left of the stream but its end. -/
def AtEnd (o : ConnObject) : Prop := o.conn.ioClient = true ∧ o.incoming = ⟨[], true⟩

/-- The client cannot stop the connection, which keeps its descriptor and its place in the table.
The kernel can report it whenever it is asked, and each of its events takes away whatever
connection the client has by then, unless the table's mutex was never given back. -/
structure Haunted (u : Client) (id : Nat) (fd : Int) : Prop where
  unknown : u.ioConnection ≠ some id
  isOpen : u.kernel.isOpen fd = true
  member : u.io.ioMembers fd = some id
  reported : u.batch = [] → ∃ v, step u (.epollWait [(fd, false)]) = some v
  raised : ∀ error rest, u.batch = (fd, error) :: rest → u.io.ioMembersMutex = false →
    ∃ v, step u (.dispatch {}) = some v ∧ v.last = .closeRaised id ∧ v.ioConnection = none

variable {u v : Client} {id : Nat} {fd : Int}

theorem recv_end (n : Nat) (fails : Bool) :
    recv ⟨[], true⟩ n fails = some (if fails then none else some [], ⟨[], true⟩) := by
  cases fails <;> simp [recv]

theorem react_end {o : ConnObject} (hconn : Connected o.conn) (hend : AtEnd o) (error : Bool)
    (errors : RecvErrors) : ∃ o' call, react o error errors = some (o', call) ∧ AtEnd o' ∧
      (errors.header = false → call = some .handleEvent) := by
  obtain ⟨hstate, hfd⟩ := hconn
  obtain ⟨hclient, hincoming⟩ := hend
  cases error with
  | true =>
    exact ⟨o, some .handleEvent, by simp [react, onIoError, hclient], ⟨hclient, hincoming⟩,
      fun _ => rfl⟩
  | false =>
    cases hheader : errors.header <;>
      simp [react, onReadAvailable, hstate, not_lt.mpr hfd, hclient, hincoming, recv_end, hheader,
        AtEnd]

/-- A close event of a connection that the client has not stopped, at the end of its stream. -/
theorem dispatch_atEnd {errors : RecvErrors} {o : ConnObject} (hu : Held u)
    (h : step u (.dispatch errors) = some v) (hlast : v.last = .closeRaised id)
    (ho : v.objects id = some o) (hlive : o.conn.Live) (hend : o.incoming = ⟨[], true⟩) :
    Lost AtEnd v id o.conn.socketFd := by
  obtain ⟨hstate, hfd, hclient⟩ := hlive
  have hv : Held v := step_held hu h
  obtain ⟨fd, error, rest, -, hcase⟩ := dispatch_cases h
  cases hcase with
  | nothing pipe _ hv =>
    subst hv
    cases hlast
  | reacted j o' o'' call _ _ _ _ _ hv =>
    subst hv
    cases hlast
  | closed j o' o'' hpipe hid ho' hreact hv' =>
    subst hv'
    obtain rfl : j = id := Outcome.closeRaised.inj hlast
    obtain ⟨rfl, -⟩ := hv.registered fd j o.conn.socketFd hid ⟨o, ho, ⟨hstate, hfd⟩, rfl⟩
    exact ⟨⟨o, ho, ⟨hstate, hfd⟩, rfl, hclient, hend⟩, hid, hpipe, nofun⟩

theorem haunted_of_lost (hu : Held u) (h : Lost AtEnd u id fd) : Haunted u id fd where
  unknown := h.unknown
  isOpen := hu.isOpen id fd h.socket
  member := h.member
  reported := h.reported hu
  raised error rest hbatch hmutex := by
    obtain ⟨o, ho, hconn, -, hend⟩ := h.object
    obtain ⟨o', call, hreact, -, hcall⟩ := react_end hconn hend error {}
    rw [hcall rfl] at hreact
    refine ⟨handleEvent ({ u with batch := rest, last := .other }.setObject id o') id, ?_, rfl, rfl⟩
    simp [step, dispatch, dispatchEvent, hbatch, h.pipe, hmutex, h.member, ho, hreact]

theorem step_atEnd {a : Act} (hu : Held u) (hl : Lost AtEnd u id fd)
    (ha : ∀ bytes, a ≠ .arrive id bytes) (h : step u a = some v) : Lost AtEnd v id fd := by
  refine step_lost hu hl ?_ (fun o bytes he => absurd he (ha bytes)) ?_ h
  · intro o o' error errors call hconn hend hreact
    obtain ⟨o₁, call₁, hreact₁, hend₁, -⟩ := react_end hconn hend error errors
    obtain ⟨rfl, -⟩ := Prod.mk.inj (Option.some.inj (hreact.symm.trans hreact₁))
    exact hend₁
  · rintro o ⟨hclient, hincoming⟩
    exact ⟨hclient, by rw [hincoming]⟩

/-- Once a connection has reported its close at the end of its stream, without the client having
stopped it before, there is no way back: whatever is called, accepted or reported afterwards, it
stays open, in the table and out of the client's reach, and each time it is reported the client
loses the connection that it has by then. -/
theorem no_recovery {u₀ u v w : Client} {ms ns : List (Move Client Act)} {errors : RecvErrors}
    {id : Nat} {o : ConnObject} (hfresh : Fresh u₀) (hp : Path step u₀ ms u)
    (h : step u (.dispatch errors) = some v) (hlast : v.last = .closeRaised id)
    (ho : v.objects id = some o) (hlive : o.conn.Live) (hend : o.incoming = ⟨[], true⟩)
    (hq : Path step v ns w) (hns : ∀ m ∈ ns, ∀ bytes, m.act ≠ .arrive id bytes) :
    Haunted w id o.conn.socketFd := by
  have hu : Held u := hp.invariant (fresh_held hfresh) fun _ _ _ => step_held
  have hv : Held v ∧ Lost AtEnd v id o.conn.socketFd :=
    ⟨step_held hu h, dispatch_atEnd hu h hlast ho hlive hend⟩
  obtain ⟨hw, hlost⟩ : Held w ∧ Lost AtEnd w id o.conn.socketFd :=
    hq.guarded (I := fun w => Held w ∧ Lost AtEnd w id o.conn.socketFd)
      (G := fun _ a => ∀ bytes, a ≠ .arrive id bytes) hv
      (fun _ _ _ hi ha hstep => ⟨step_held hi.1 hstep, step_atEnd hi.1 hi.2 ha hstep⟩) hns
  exact haunted_of_lost hw hlost

theorem no_recovery_reconnect : ∃ ms ns u v w o, Path step newClient ms u ∧
    step u (.dispatch {}) = some v ∧ v.last = .closeRaised 0 ∧ v.objects 0 = some o ∧
      o.conn.Live ∧ o.incoming = ⟨[], true⟩ ∧ Path step v ns w ∧
        w.ioConnection = some 1 ∧ Haunted w 0 6 := by
  have hrun : ∃ u v w o, run step newClient [.connect 80 6 true false, .peerClose 0,
      .epollWait [(6, false)]] = some u ∧ step u (.dispatch {}) = some v ∧
      v.last = .closeRaised 0 ∧ v.objects 0 = some o ∧ o = ⟨connectedTo 6, ⟨[], true⟩, true⟩ ∧
      run step v [.connect 80 7 true false, .epollWait [(6, false)]] = some w ∧
      w.ioConnection = some 1 := ⟨_, _, _, _, rfl, rfl, rfl, rfl, rfl, rfl, rfl⟩
  obtain ⟨u, v, w, o, hu, hstep, hlast, ho, rfl, hw, hcurrent⟩ := hrun
  obtain ⟨ms, hp, -⟩ := path_of_run hu
  obtain ⟨ns, hq, hacts⟩ := path_of_run hw
  have hlive : (connectedTo 6).Live := ⟨rfl, by decide, rfl⟩
  have hns (m : Move Client Act) (hm : m ∈ ns) (bytes : Bytes) : m.act ≠ .arrive 0 bytes := by
    have hmem : m.act ∈ ns.map Move.act := List.mem_map_of_mem hm
    rw [hacts] at hmem
    intro hact
    simp [hact] at hmem
  exact ⟨ms, ns, u, v, w, _, hp, hstep, hlast, ho, hlive, rfl, hq, hcurrent,
    no_recovery newClient_fresh hp hstep hlast ho hlive rfl hq hns⟩

end DericRpc.AfterClose
