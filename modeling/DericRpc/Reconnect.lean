import DericRpc.ClientEntry

/-! A client that connects again. Its table keeps the descriptors of all connections there ever
were, so that the first number that comes again finds one that is taken. -/
namespace DericRpc.Reconnect
open Connection Io Lts ClientLife ClientEntry

/-- The descriptor of the connection that the move makes, if it makes one. -/
def descriptor (m : Move RpcClientEntry ClientEntry.Act) : Option Int :=
  match m.act with
  | .client (.connect port sock true _) =>
    if 0 ≤ port ∧ 0 ≤ sock ∧ m.pre.clientImpl = true then some sock else none
  | _ => none

def descriptors (ms : List (Move RpcClientEntry ClientEntry.Act)) : List Int := ms.filterMap descriptor

/-- From here on no connection is made any more, and no event is handled but those of the pipe. -/
def Wedged (u : RpcClientEntry) : Prop :=
  ∀ ns w, Path ClientEntry.step u ns w → ∀ m ∈ ns, descriptor m = none ∧
    ∀ errors fd error rest, m.act = .client (.dispatch errors) →
      m.pre.client.batch = (fd, error) :: rest → fd = m.pre.client.io.wakeUpPipeFd.1

/-- The table holds the descriptors that were used, and its mutex is lost where one was used
twice. -/
structure Books (used : List Int) (u : RpcClientEntry) : Prop where
  table : ∀ fd, (∃ id, u.client.io.ioMembers fd = some id) ↔ fd ∈ used
  mutex : u.client.io.ioMembersMutex = true ↔ ¬used.Nodup

variable {u v : RpcClientEntry} {used : List Int}

/-- A connect that makes a connection adds its descriptor to the table, or finds it taken and
loses the mutex. -/
theorem connect_made {u v : Client} {port sock : Int} {refused : Bool} (hport : 0 ≤ port)
    (hsock : 0 ≤ sock) (h : connect u port sock true refused = some v) :
    (∃ old, u.io.ioMembers sock = some old ∧ v.io = { u.io with ioMembersMutex := true }) ∨
      u.io.ioMembers sock = none ∧
        v.io = { u.io with ioMembers := Function.update u.io.ioMembers sock (some u.count) } := by
  cases connect_cases h with
  | failed k hgood _ hv => exact absurd ⟨hport, hsock, rfl⟩ hgood
  | stale k old _ hold _ hv =>
    subst hv
    exact .inl ⟨old, hold, rfl⟩
  | registered k _ hnone _ hv =>
    subst hv
    exact .inr ⟨hnone, rfl⟩
  | refused k o _ hnone _ hv =>
    subst hv
    exact .inr ⟨hnone, rfl⟩

theorem connect_unmade {u v : Client} {port sock : Int} {connected refused : Bool}
    (hbad : ¬(0 ≤ port ∧ 0 ≤ sock ∧ connected = true))
    (h : connect u port sock connected refused = some v) : v.io = u.io := by
  cases connect_cases h with
  | failed k _ _ hv =>
    subst hv
    rfl
  | stale k old hgood _ _ hv => exact absurd hgood hbad
  | registered k hgood _ _ hv => exact absurd hgood hbad
  | refused k o hgood _ _ hv => exact absurd hgood hbad

theorem connect_mutex {u v : Client} {port sock : Int} {refused : Bool} (hport : 0 ≤ port)
    (hsock : 0 ≤ sock) (h : connect u port sock true refused = some v) :
    u.io.ioMembersMutex = false := by
  unfold connect at h
  simp only [startConnect_ok hport hsock, Int.reduceNeg, lt_self_iff_false, if_false] at h
  split at h
  · cases h
  · next hadd => exact addIoMember_mutex hsock hadd

theorem resetImpl_io (u : RpcClientEntry) : u.resetImpl.io = u.client.io := by
  unfold RpcClientEntry.resetImpl
  split_ifs
  · rfl
  · rfl

theorem step_io {a : ClientEntry.Act} (h : ClientEntry.step u a = some v) :
    (descriptor ⟨u, a, v⟩ = none ∧ v.client.io = u.client.io) ∨
      ∃ port sock refused, descriptor ⟨u, a, v⟩ = some sock ∧ 0 ≤ port ∧ 0 ≤ sock ∧
        connect u.client port sock true refused = some v.client := by
  cases a with
  | init serviceBook =>
    refine .inl ⟨rfl, ?_⟩
    obtain rfl := Option.some.inj h
    cases serviceBook with
    | false => rfl
    | true => exact resetImpl_io u
  | deinit =>
    refine .inl ⟨rfl, ?_⟩
    obtain rfl := Option.some.inj h
    exact resetImpl_io u
  | client b =>
    dsimp only [ClientEntry.step] at h
    split_ifs at h with himpl
    · -- connect and disconnect without an RpcClientImpl
      obtain rfl := Option.some.inj h
      refine .inl ⟨?_, rfl⟩
      unfold descriptor
      split
      · simp [himpl.2]
      · rfl
    · obtain ⟨client, hclient, rfl⟩ := Option.map_eq_some_iff.mp h
      obtain ⟨port, sock, connected, refused, rfl, hconnect⟩ | ⟨hother, hio⟩ :=
        Descriptors.step_io hclient
      · by_cases hgood : 0 ≤ port ∧ 0 ≤ sock ∧ connected = true
        · obtain ⟨hport, hsock, rfl⟩ := hgood
          have hset : u.clientImpl = true := by simpa [needsImpl] using himpl
          exact .inr ⟨port, sock, refused, if_pos ⟨hport, hsock, hset⟩, hport, hsock, hconnect⟩
        · refine .inl ⟨?_, connect_unmade hgood hconnect⟩
          cases connected with
          | false => rfl
          | true => exact if_neg fun hall => hgood ⟨hall.1, hall.2.1, rfl⟩
      · refine .inl ⟨?_, hio⟩
        cases b with
        | connect port sock connected refused =>
          exact absurd rfl (hother port sock connected refused)
        | disconnect => rfl
        | arrive id bytes => rfl
        | peerClose id => rfl
        | epollWait events => rfl
        | dispatch errors => rfl

theorem Books.add {sock : Int} (hb : Books used u)
    (hio : (∃ old, u.client.io.ioMembers sock = some old ∧
        v.client.io = { u.client.io with ioMembersMutex := true }) ∨
      u.client.io.ioMembers sock = none ∧ v.client.io = { u.client.io with
        ioMembers := Function.update u.client.io.ioMembers sock (some u.client.count) }) :
    Books (used ++ [sock]) v := by
  obtain ⟨old, hold, hv⟩ | ⟨hnone, hv⟩ := hio
  · have hused : sock ∈ used := (hb.table sock).1 ⟨old, hold⟩
    refine ⟨fun fd => ?_, iff_of_true (by rw [hv]) ?_⟩
    · rw [hv, List.mem_append, List.mem_singleton, hb.table fd]
      exact ⟨.inl, fun h => h.elim (fun h => h) fun h => h ▸ hused⟩
    · rw [List.nodup_append]
      exact fun h => h.2.2 sock hused sock (by simp) rfl
  · have hunused : sock ∉ used := by
      rw [← hb.table sock, hnone]
      simp
    refine ⟨fun fd => ?_, ?_⟩
    · rw [hv, List.mem_append, List.mem_singleton, ← hb.table fd]
      by_cases hfd : fd = sock
      · subst hfd
        simp
      · simp [hfd]
    · rw [hv, hb.mutex, List.nodup_append]
      refine not_congr ⟨fun h => ⟨h, by simp, fun x hx y hy => ?_⟩, And.left⟩
      rw [List.mem_singleton.mp hy]
      rintro rfl
      exact hunused hx

theorem step_books {a : ClientEntry.Act} (hb : Books used u) (h : ClientEntry.step u a = some v) :
    Books (used ++ (descriptor ⟨u, a, v⟩).toList) v := by
  obtain ⟨hnone, hio⟩ | ⟨port, sock, refused, hsome, hport, hsock, hconnect⟩ := step_io h
  · rw [hnone, Option.toList_none, List.append_nil]
    exact ⟨by rw [hio]; exact hb.table, by rw [hio]; exact hb.mutex⟩
  · rw [hsome]
    exact hb.add (connect_made hport hsock hconnect)

theorem descriptors_concat (ms : List (Move RpcClientEntry ClientEntry.Act))
    (m : Move RpcClientEntry ClientEntry.Act) :
    descriptors (ms ++ [m]) = descriptors ms ++ (descriptor m).toList := by
  rw [descriptors, List.filterMap_append]
  cases hm : descriptor m <;> simp [descriptors, hm]

theorem path_books {ms : List (Move RpcClientEntry ClientEntry.Act)} {u₀ : RpcClientEntry}
    (hb : Books [] u₀) (hp : Path ClientEntry.step u₀ ms u) : Books (descriptors ms) u := by
  induction hp with
  | nil => exact hb
  | snoc _ hstep ih =>
    rw [descriptors_concat]
    exact step_books ih hstep

theorem step_locked {a : ClientEntry.Act} (hu : u.client.io.ioMembersMutex = true)
    (h : ClientEntry.step u a = some v) : v.client.io.ioMembersMutex = true := by
  obtain ⟨-, hio⟩ | ⟨port, sock, refused, -, hport, hsock, hconnect⟩ := step_io h
  · rwa [hio]
  · cases hu.symm.trans (connect_mutex hport hsock hconnect)

theorem wedged_of_locked (hu : u.client.io.ioMembersMutex = true) : Wedged u := by
  intro ns w hq m hm
  obtain ⟨pre, -, -, hpre, hstep⟩ := hq.split hm
  have hlocked : m.pre.client.io.ioMembersMutex = true :=
    hpre.invariant hu fun _ _ _ => step_locked
  refine ⟨?_, fun errors fd error rest hact hbatch => ?_⟩
  · obtain ⟨hnone, -⟩ | ⟨port, sock, refused, -, hport, hsock, hconnect⟩ := step_io hstep
    · exact hnone
    · cases hlocked.symm.trans (connect_mutex hport hsock hconnect)
  · by_contra hpipe
    rw [hact] at hstep
    simp [ClientEntry.step, needsImpl, ClientLife.step, dispatch, dispatchEvent, hbatch, hpipe,
      hlocked] at hstep

/-- However a client is initialized, connected, disconnected and torn down, IoModule loses its
mutex in just the runs in which two connections were given one descriptor number; and from then on
no connection is made and no event is handled. -/
theorem wedged_iff_reused {u₀ u : RpcClientEntry} {ms : List (Move RpcClientEntry ClientEntry.Act)}
    (hfresh : ClientEntry.Fresh u₀) (hfree : u₀.client.io.ioMembersMutex = false)
    (hp : Path ClientEntry.step u₀ ms u) :
    (u.client.io.ioMembersMutex = true ↔ ¬(descriptors ms).Nodup) ∧
      (¬(descriptors ms).Nodup → Wedged u) := by
  have hstart : Books [] u₀ := by
    refine ⟨fun fd => ?_, ?_⟩
    · simp [hfresh.client.ioMembers fd]
    · simp [hfree]
  have hmutex := (path_books hstart hp).mutex
  exact ⟨hmutex, fun hreused => wedged_of_locked (hmutex.2 hreused)⟩

/-- A client that disconnects and connects again, where the kernel gives the lowest number. -/
theorem wedged_iff_reused_again : ∃ ms u, Path ClientEntry.step newEntry ms u ∧
    ms.map Move.act = [.init true, .client (.connect 80 6 true false), .client .disconnect,
      .client (.connect 80 6 true false)] ∧ Wedged u := by
  have hrun : ∃ u, run ClientEntry.step newEntry [.init true, .client (.connect 80 6 true false),
      .client .disconnect, .client (.connect 80 6 true false)] = some u ∧
      u.client.io.ioMembersMutex = true := ⟨_, rfl, rfl⟩
  obtain ⟨u, hu, hlocked⟩ := hrun
  obtain ⟨ms, hp, hacts⟩ := path_of_run hu
  have hwedged := wedged_iff_reused newEntry_fresh rfl hp
  exact ⟨ms, u, hp, hacts, hwedged.2 (hwedged.1.1 hlocked)⟩

end DericRpc.Reconnect
