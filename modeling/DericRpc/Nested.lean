import DericRpc.Routing

/-! A synchronous call out of a function that a service runs: the function runs on the IO thread
of its process, which would have to take the reply to the call. -/
namespace DericRpc.Nested
open ByteString Common Serial Lts Waiting
variable {P : MsgPack} {E : Type}

/-- The client entries of one process. `inside` is the call that its IO thread makes while it
runs a function. -/
structure Process (E : Type) where
  entries : E → ClientEntry := fun _ => {}
  inside : Option (E × Int32) := none

inductive Act (E : Type) where
  | entry (i : E) (a : Waiting.Act)
  | enter (i : E) (k : Int32)
  | leave

/-- The IO thread takes a message. -/
def isCallback : Waiting.Act → Bool
  | .callback _ => true
  | _ => false

def isReturned : Phase → Bool
  | .returned _ _ => true
  | _ => false

section
variable [DecidableEq E]

def Process.set (u : Process E) (i : E) (e : ClientEntry) : Process E :=
  { u with entries := Function.update u.entries i e }

/-- All entries of a process have one IO thread: inside a call it takes no message of any. -/
def step (P : MsgPack) (u : Process E) : Act E → Option (Process E)
  | .entry i a =>
    if isCallback a = true ∧ u.inside.isSome = true then none
    else (Waiting.step P (u.entries i) a).map (u.set i)
  | .enter i k =>
    if u.inside = none then
      (Waiting.step P (u.entries i) (.send k)).map fun e => { u.set i e with inside := some (i, k) }
    else none
  | .leave =>
    u.inside.bind fun (i, k) =>
      if isReturned ((u.entries i).callers k) then some { u with inside := none } else none

end

/-- Sent, and not notified. -/
def Pending (p : Phase) : Prop := p = .sent ∨ p = .added ∨ p = .waiting false

/-- With no result, and none to take. -/
def Unheard (p : Phase) : Prop := p.result = none ∧ p ≠ .waiting true

def NoSpuriousWake : Act E → Prop
  | .entry _ (.spuriousWake _) => False
  | _ => True

/-- Since `u` the IO thread has been in the same call: it has taken no message of any entry, and
no caller without a result has got one. -/
structure Silent (u v : Process E) : Prop where
  inside : v.inside = u.inside
  processed : ∀ i, (v.entries i).processed = (u.entries i).processed
  unheard : ∀ i k, Unheard ((u.entries i).callers k) → Unheard ((v.entries i).callers k)

theorem Silent.refl (u : Process E) : Silent u u := ⟨rfl, fun _ => rfl, fun _ _ h => h⟩

theorem Silent.trans {u v w : Process E} (h : Silent u v) (h' : Silent v w) : Silent u w :=
  ⟨h'.inside.trans h.inside, fun i => (h'.processed i).trans (h.processed i),
    fun i k hu => h'.unheard i k (h.unheard i k hu)⟩

variable {e e' : ClientEntry} {a : Waiting.Act} {k : Int32}

theorem Pending.unheard {p : Phase} (h : Pending p) : Unheard p := by
  obtain rfl | rfl | rfl := h
  · exact ⟨rfl, Phase.noConfusion⟩
  · exact ⟨rfl, Phase.noConfusion⟩
  · exact ⟨rfl, by decide⟩

theorem Pending.not_returned {p : Phase} (h : Pending p) : isReturned p = false := by
  obtain rfl | rfl | rfl := h <;> rfl

theorem own_phase (hi : Inv P e) (h : Waiting.step P e a = some e')
    (ha : Routing.caller a = some k) (hw : a ≠ .spuriousWake k) :
    (Pending (e.callers k) → Pending (e'.callers k)) ∧
      (Unheard (e.callers k) → Unheard (e'.callers k)) := by
  cases a with
  | send j =>
    obtain rfl : j = k := Option.some.inj ha
    obtain ⟨-, rfl⟩ := enabled h
    have hsent : Pending ((e.move j .sent).callers j) := .inl (Function.update_self ..)
    exact ⟨fun _ => hsent, fun _ => hsent.unheard⟩
  | sendFails j =>
    obtain rfl : j = k := Option.some.inj ha
    obtain ⟨hidle, rfl⟩ := enabled h
    rw [hidle, move_callers, Function.update_self]
    exact ⟨fun hp => by simp [Pending] at hp, fun _ => ⟨rfl, Phase.noConfusion⟩⟩
  | addItem j =>
    obtain rfl : j = k := Option.some.inj ha
    obtain ⟨hsent, hadd⟩ := Option.ite_none_right_eq_some.mp h
    have hnone : e.waitingItems j = none := by
      have hc := hi.caller j
      rwa [hsent] at hc
    obtain rfl : (e.setItem j (some [])).move j .added = e' := by
      simpa [addResultWaitingItem, hnone] using hadd
    have hadded : Pending (((e.setItem j (some [])).move j .added).callers j) :=
      .inr (.inl (Function.update_self ..))
    exact ⟨fun _ => hadded, fun _ => hadded.unheard⟩
  | wait j =>
    obtain rfl : j = k := Option.some.inj ha
    obtain ⟨-, rfl⟩ := enabled h
    rw [move_callers, Function.update_self]
    have hwaits : Pending (.waiting false) := .inr (.inr rfl)
    exact ⟨fun _ => hwaits, fun _ => hwaits.unheard⟩
  | resume j =>
    obtain rfl : j = k := Option.some.inj ha
    have hnotified := (enabled h).1
    rw [hnotified]
    exact ⟨fun hp => by simp [Pending] at hp, fun hu => absurd rfl hu.2⟩
  | spuriousWake j =>
    obtain rfl : j = k := Option.some.inj ha
    exact absurd rfl hw
  | removeItem j =>
    obtain rfl : j = k := Option.some.inj ha
    cases hp : e.callers j with
    | resumed str => exact ⟨fun hpend => by simp [Pending] at hpend, fun hu => by cases hu.1⟩
    | _ => simp [Waiting.step, hp] at h
  | post msg => cases ha
  | callback msg => cases ha

/-- While the IO thread takes no message, nobody gets a result that was not there. -/
theorem step_unheard (hi : Inv P e) (h : Waiting.step P e a = some e')
    (hcallback : isCallback a = false) (hw : ∀ j, a ≠ .spuriousWake j) :
    e'.processed = e.processed ∧ ∀ k, (Pending (e.callers k) → Pending (e'.callers k)) ∧
      (Unheard (e.callers k) → Unheard (e'.callers k)) := by
  have hprocessed : e'.processed = e.processed := by
    obtain ⟨-, ⟨-, hsame⟩ | ⟨_, -, -, hsame⟩ | ⟨_, rfl, -⟩⟩ := step_queues h
    · exact hsame
    · exact hsame
    · cases hcallback
  refine ⟨hprocessed, fun k => ?_⟩
  obtain ⟨hsame, -⟩ | ⟨_, ⟨rfl, -⟩, -⟩ | ⟨hown, -⟩ := Routing.step_item h k
  · rw [hsame]
    exact ⟨id, id⟩
  · cases hcallback
  · exact own_phase hi h hown (hw k)

variable [DecidableEq E] {u v : Process E}

/-- The entries keep their own invariant, and the IO thread is inside no call that was answered. -/
structure ProcessInv (P : MsgPack) (u : Process E) : Prop where
  entries : ∀ i, Inv P (u.entries i)
  inside : ∀ i k, u.inside = some (i, k) → Pending ((u.entries i).callers k)

omit [DecidableEq E] in
theorem inv_start : ProcessInv P ({} : Process E) := ⟨fun _ => inv_init, nofun⟩

theorem forall_update {i : E} {Q : E → ClientEntry → Prop}
    (h : ∀ j, Q j (u.entries j)) (he : Q i e) : ∀ j, Q j ((u.set i e).entries j) := by
  intro j
  by_cases hj : j = i
  · subst hj
    simpa only [Process.set, Function.update_self] using he
  · simpa only [Process.set, Function.update_of_ne hj] using h j

theorem step_inv {a : Act E} (hi : ProcessInv P u) (ha : NoSpuriousWake a)
    (h : step P u a = some v) : ProcessInv P v ∧ (u.inside.isSome = true → Silent u v) := by
  cases a with
  | entry i a =>
    obtain ⟨hfree, h⟩ := Option.ite_none_left_eq_some.mp h
    obtain ⟨e, he, rfl⟩ := Option.map_eq_some_iff.mp h
    have hentries := forall_update (i := i) hi.entries (Waiting.step_inv he (hi.entries i))
    cases hinside : u.inside with
    | none =>
      refine ⟨⟨hentries, fun j k hjk => ?_⟩, nofun⟩
      rw [Process.set, hinside] at hjk
      cases hjk
    | some jk =>
      have hcallback : isCallback a = false := by
        rw [hinside] at hfree
        exact Bool.eq_false_iff.mpr fun hc => hfree ⟨hc, rfl⟩
      obtain ⟨hprocessed, hcallers⟩ := step_unheard (hi.entries i) he hcallback
        fun j hj => by rw [hj] at ha; exact ha
      have hphases := forall_update (u := u) (i := i) (e := e)
        (Q := fun j e => ∀ k, (Pending ((u.entries j).callers k) → Pending (e.callers k)) ∧
          (Unheard ((u.entries j).callers k) → Unheard (e.callers k)))
        (fun _ _ => ⟨id, id⟩) hcallers
      refine ⟨⟨hentries, fun j k hjk => (hphases j k).1 (hi.inside j k hjk)⟩, fun _ =>
        ⟨rfl, ?_, fun j k => (hphases j k).2⟩⟩
      exact forall_update (Q := fun j e => e.processed = (u.entries j).processed)
        (fun _ => rfl) hprocessed
  | enter i k =>
    obtain ⟨hnone, h⟩ := Option.ite_none_right_eq_some.mp h
    obtain ⟨e, he, rfl⟩ := Option.map_eq_some_iff.mp h
    refine ⟨⟨forall_update hi.entries (Waiting.step_inv he (hi.entries i)), fun j k' hjk => ?_⟩,
      fun hsome => by rw [hnone] at hsome; cases hsome⟩
    obtain ⟨rfl, rfl⟩ := Prod.mk.inj (Option.some.inj hjk)
    obtain ⟨-, rfl⟩ := enabled he
    simp [Process.set, Pending]
  | leave =>
    obtain ⟨⟨i, k⟩, hinside, h⟩ := Option.bind_eq_some_iff.mp h
    have hreturned := (Option.ite_none_right_eq_some.mp h).1
    rw [(hi.inside i k hinside).not_returned] at hreturned
    cases hreturned

/-- A function of a service that makes a synchronous call through a client of its own process, and
has sent its command, never returns from it: in every run without spurious wakeups its IO thread
stays in that call, takes no message any more, and no other caller of the process gets a result
either, unless it had been notified before. -/
theorem nested_call_never_returns {ms ns : List (Move (Process E) (Act E))} {i : E} {k : Int32}
    (h : Path (step P) {} ms u) (hinside : u.inside = some (i, k)) (h' : Path (step P) u ns v)
    (hwake : ∀ m ∈ ms ++ ns, NoSpuriousWake m.act) :
    Unheard ((v.entries i).callers k) ∧ Silent u v := by
  have hu : ProcessInv P u := h.guarded (G := fun _ a => NoSpuriousWake a) inv_start
    (fun _ _ _ hi ha hs => (step_inv hi ha hs).1) fun m hm => hwake m (List.mem_append_left _ hm)
  have hv : ProcessInv P v ∧ Silent u v := h'.guarded (I := fun w => ProcessInv P w ∧ Silent u w)
    (G := fun _ a => NoSpuriousWake a) ⟨hu, .refl u⟩
    (fun _ _ _ hi ha hs => ⟨(step_inv hi.1 ha hs).1,
      hi.2.trans ((step_inv hi.1 ha hs).2 (by rw [hi.2.inside, hinside]; rfl))⟩)
    fun m hm => hwake m (List.mem_append_right _ hm)
  exact ⟨(hv.1.inside i k (hv.2.inside.trans hinside)).unheard, hv.2⟩

/-- The reply is there, but nobody takes it. -/
theorem nested_call_never_returns_reply : ∃ (u v : Process Unit) (msg : Bytes),
    u.inside = some ((), 1) ∧ msg ∈ (v.entries ()).inFlight ∧
      readType standard msg = MessageType.replay.code ∧ readId standard msg = 1 ∧
      Unheard ((v.entries ()).callers 1) ∧ Silent u v := by
  let msg := header standard .replay emptyStr 1 ++ []
  obtain ⟨u, v, hu, hv, hinside, hin⟩ : ∃ u v,
      run (step standard) ({} : Process Unit) [.enter () 1] = some u ∧
      run (step standard) u [.entry () (.addItem 1), .entry () (.wait 1), .entry () (.post msg)] =
        some v ∧ u.inside = some ((), 1) ∧ msg ∈ (v.entries ()).inFlight :=
    ⟨_, _, rfl, rfl, rfl, List.mem_singleton.mpr rfl⟩
  obtain ⟨ms, hp, hms⟩ := path_of_run hu
  obtain ⟨ns, hp', hns⟩ := path_of_run hv
  have hwake : ∀ m ∈ ms ++ ns, NoSpuriousWake m.act := by
    have hacts : ∀ a ∈ (ms ++ ns).map Move.act, NoSpuriousWake a := by
      rw [List.map_append, hms, hns]
      simp [NoSpuriousWake]
    exact List.forall_mem_map.mp hacts
  exact ⟨u, v, msg, hinside, hin, readType_header standard .replay emptyStr 1 [],
    readId_header standard .replay emptyStr 1 [],
    nested_call_never_returns hp hinside hp' hwake⟩

end DericRpc.Nested
