import DericRpc.Waiting

/-! Every reply reaches the item of its own caller only, and a caller takes from its own item
only: which callers have items, and what a step may do to each of them. -/
namespace DericRpc.Routing
open ByteString Common Serial Lts Waiting
variable {P : MsgPack}

/-- Between adding its item and removing it. -/
def Holding : Phase → Prop
  | .added | .waiting _ | .resumed _ => True
  | _ => False

/-- The caller that takes the step; the IO thread takes the others. -/
def caller : Act → Option Int32
  | .send k | .sendFails k | .addItem k | .wait k | .resume k | .spuriousWake k
  | .removeItem k => some k
  | .post _ | .callback _ => none

/-- The step hands the reply `msg` to message `k`. -/
def Replies (P : MsgPack) (a : Act) (k : Int32) (msg : Bytes) : Prop :=
  a = .callback msg ∧ readType P msg = MessageType.replay.code ∧ readId P msg = k

/-- An item changes by a step of its own caller, which stores no message, or by a reply to
it; and what a caller takes is what its own item holds. -/
structure Routed (P : MsgPack) (m : Move ClientEntry Act) : Prop where
  changed : ∀ k, m.post.waitingItems k ≠ m.pre.waitingItems k →
    caller m.act = some k ∨ ∃ msg, Replies P m.act k msg
  stored : ∀ k msg, m.post.waitingItems k = some msg → msg ≠ [] →
    m.pre.waitingItems k = some msg ∨ Replies P m.act k msg
  taken : ∀ k str, m.post.callers k = .resumed str →
    m.pre.callers k = .resumed str ∨
      caller m.act = some k ∧ str = (m.pre.waitingItems k).getD []

/-- What a step does to one caller and its item: nothing, a reply, or the caller's own move,
which leaves no new message in the item. -/
def ItemStep (P : MsgPack) (e e' : ClientEntry) (a : Act) (k : Int32) : Prop :=
  (e'.callers k = e.callers k ∧ e'.waitingItems k = e.waitingItems k) ∨
  (∃ msg, Replies P a k msg ∧ e'.waitingItems k = some msg ∧
    e'.callers k = (e.callers k).notify) ∨
  (caller a = some k ∧
    (∀ msg, e'.waitingItems k = some msg → msg = [] ∨ e.waitingItems k = some msg) ∧
    ∀ str, e'.callers k = .resumed str → str = (e.waitingItems k).getD [])

theorem itemStep_update {e e' : ClientEntry} {a : Act} {j k : Int32} {p : Phase}
    {item : Option Bytes} (hc : e'.callers = Function.update e.callers j p)
    (hi : e'.waitingItems = Function.update e.waitingItems j item) (ha : caller a = some j)
    (hitem : ∀ msg, item = some msg → msg = [] ∨ e.waitingItems j = some msg)
    (htaken : ∀ str, p = .resumed str → str = (e.waitingItems j).getD []) :
    ItemStep P e e' a k := by
  by_cases hk : k = j
  · subst hk
    refine .inr (.inr ⟨ha, ?_, ?_⟩)
    · rw [hi, Function.update_self]
      exact hitem
    · rw [hc, Function.update_self]
      exact htaken
  · exact .inl ⟨by rw [hc, Function.update_of_ne hk], by rw [hi, Function.update_of_ne hk]⟩

theorem step_item {e e' : ClientEntry} {a : Act} (h : step P e a = some e') (k : Int32) :
    ItemStep P e e' a k := by
  cases a with
  | send j =>
    obtain ⟨-, rfl⟩ := enabled h
    exact itemStep_update rfl (eq_update_of_eq rfl) rfl (fun _ hm => .inr hm) fun _ hp => by cases hp
  | sendFails j =>
    obtain ⟨-, rfl⟩ := enabled h
    exact itemStep_update rfl (eq_update_of_eq rfl) rfl (fun _ hm => .inr hm) fun _ hp => by cases hp
  | addItem j =>
    obtain ⟨-, hadd⟩ := Option.ite_none_right_eq_some.mp h
    cases hi : e.waitingItems j with
    | none =>
      obtain rfl : (e.setItem j (some [])).move j .added = e' := by
        simpa [addResultWaitingItem, hi] using hadd
      exact itemStep_update rfl rfl rfl (fun _ hm => .inl (Option.some.inj hm).symm) fun _ hp => by cases hp
    | some msg =>
      obtain rfl : e.move j (.returned [] (-1)) = e' := by
        simpa [addResultWaitingItem, hi] using hadd
      exact itemStep_update rfl (eq_update_of_eq rfl) rfl (fun _ hm => .inr hm) fun _ hp => by cases hp
  | wait j =>
    obtain ⟨-, rfl⟩ := enabled h
    refine itemStep_update rfl rfl rfl (fun msg hm => ?_) fun _ hp => by cases hp
    cases hi : e.waitingItems j with
    | none => exact .inl (by simpa [hi] using hm.symm)
    | some old => exact .inr (by simpa [hi] using hm)
  | resume j =>
    obtain ⟨-, rfl⟩ := enabled h
    exact itemStep_update rfl rfl rfl (fun _ hm => .inl (Option.some.inj hm).symm)
      (fun _ hp => (Phase.resumed.inj hp).symm)
  | spuriousWake j =>
    obtain ⟨-, rfl⟩ := enabled h
    exact itemStep_update rfl rfl rfl (fun _ hm => .inl (Option.some.inj hm).symm)
      (fun _ hp => (Phase.resumed.inj hp).symm)
  | removeItem j =>
    cases hp : e.callers j with
    | resumed str =>
      cases hi : e.waitingItems j with
      | none =>
        obtain rfl : e.move j (.returned str 0) = e' := by
          simpa [step, hp, removeResultWaitingItem, hi] using h
        exact itemStep_update rfl (eq_update_of_eq rfl) rfl (fun _ hm => .inr hm) fun _ hp => by cases hp
      | some msg =>
        obtain rfl : (e.setItem j none).move j (.returned str 0) = e' := by
          simpa [step, hp, removeResultWaitingItem, hi] using h
        exact itemStep_update rfl rfl rfl (fun _ hm => by cases hm) fun _ hp => by cases hp
    | _ => simp [step, hp] at h
  | post msg =>
    obtain rfl : { e with inFlight := e.inFlight ++ [msg] } = e' := by simpa [step] using h
    exact .inl ⟨rfl, rfl⟩
  | callback msg =>
    obtain ⟨-, rfl⟩ := enabled h
    rcases serviceMessageCallback_cases P e msg with hsame | ⟨htype, -, hnotify⟩
    · rw [hsame]
      exact .inl ⟨rfl, rfl⟩
    · rw [hnotify]
      by_cases hk : k = readId P msg
      · subst hk
        exact .inr (.inl ⟨msg, ⟨rfl, htype, rfl⟩, Function.update_self .., Function.update_self ..⟩)
      · exact .inl ⟨Function.update_of_ne hk .., Function.update_of_ne hk ..⟩

theorem step_routed {e e' : ClientEntry} {a : Act} (h : step P e a = some e') :
    Routed P ⟨e, a, e'⟩ := by
  refine ⟨fun k hne => ?_, fun k msg hmsg hne => ?_, fun k str hstr => ?_⟩
  · rcases step_item h k with ⟨-, hsame⟩ | ⟨msg, hreplies, -, -⟩ | ⟨hcaller, -, -⟩
    · exact absurd hsame hne
    · exact .inr ⟨msg, hreplies⟩
    · exact .inl hcaller
  · rcases step_item h k with ⟨-, hsame⟩ | ⟨new, hreplies, hnew, -⟩ | ⟨-, hitem, -⟩
    · exact .inl (hsame ▸ hmsg)
    · obtain rfl : new = msg := Option.some.inj (hnew.symm.trans hmsg)
      exact .inr hreplies
    · exact .inl ((hitem msg hmsg).resolve_left hne)
  · rcases step_item h k with ⟨hsame, -⟩ | ⟨_, -, -, hnotify⟩ | ⟨hcaller, -, htaken⟩
    · exact .inl (hsame ▸ hstr)
    · refine .inl ?_
      simp only [hnotify] at hstr
      cases hp : e.callers k <;> rw [hp] at hstr <;> simp [Phase.notify] at hstr
      rw [hstr]
    · exact .inr ⟨hcaller, htaken str hstr⟩

theorem CallerInv.isSome_iff {e : ClientEntry} {k : Int32} {p : Phase} {item : Option Bytes}
    (h : CallerInv P e k p item) : item.isSome = true ↔ Holding p := by
  cases p with
  | idle => simp [show item = none from h, Holding]
  | sent => simp [show item = none from h, Holding]
  | added =>
    obtain ⟨msg, rfl, -⟩ := h
    exact iff_of_true rfl trivial
  | waiting b =>
    obtain ⟨msg, rfl⟩ : ∃ msg, item = some msg := by
      cases b with
      | false => exact h.imp fun _ hm => hm.1
      | true => exact h.imp fun _ hm => hm.1
    exact iff_of_true rfl trivial
  | resumed str => exact iff_of_true h.1 trivial
  | returned str res => simp [show item = none from h.1, Holding]

/-- In every run: items for exactly the callers between adding and removing, only replies
to its own message returned to a caller, and every step routed. -/
theorem replies_routed {ms : List (Move ClientEntry Act)} {e : ClientEntry}
    (h : Path (step P) {} ms e) :
    (∀ k, (e.waitingItems k).isSome = true ↔ Holding (e.callers k)) ∧
    (∀ k str res, e.callers k = .returned str res → str ≠ [] → Answer P e k str) ∧
    ∀ m ∈ ms, Routed P m := by
  have hinv : Inv P e := h.invariant inv_init fun _ _ _ hi hs => step_inv hs hi
  refine ⟨fun k => CallerInv.isSome_iff (hinv.caller k), fun k str res hp hne => ?_, fun m hm => ?_⟩
  · have hc := hinv.caller k
    rw [hp] at hc
    exact hc.2.resolve_left hne
  · obtain ⟨-, -, -, -, hstep⟩ := h.split hm
    exact step_routed hstep

theorem first_reply : readType standard (header standard .replay emptyStr 1) =
      MessageType.replay.code ∧ readId standard (header standard .replay emptyStr 1) = 1 := by
  constructor
  · simpa using readType_header standard .replay emptyStr 1 []
  · simpa using readId_header standard .replay emptyStr 1 []

theorem replies_routed_answered :
    ∃ ms e, Path (step standard) {} ms e ∧
      e.callers 1 = .returned (header standard .replay emptyStr 1) 0 ∧
      (∀ k, (e.waitingItems k).isSome = true ↔ Holding (e.callers k)) ∧
      (∀ k str res, e.callers k = .returned str res → str ≠ [] → Answer standard e k str) ∧
      ∀ m ∈ ms, Routed standard m := by
  let msg := header standard .replay emptyStr 1
  let e1 : ClientEntry := ClientEntry.move {} 1 .sent
  let e2 : ClientEntry := { e1 with inFlight := [msg] }
  have h1 : step standard {} (.send 1) = some e1 := rfl
  have h2 : step standard e1 (.post msg) = some e2 := rfl
  obtain ⟨htype, hid⟩ := first_reply
  have hsent : e2.callers 1 = .sent := by simp [e2, e1]
  obtain ⟨e, hrun, hreturned⟩ := reply_run (e := e2) rfl hsent rfl List.mem_cons_self htype hid
  obtain ⟨ms, hms, -⟩ := path_of_run hrun
  have hpath := ((Path.nil.snoc h1).snoc h2).append hms
  exact ⟨_, e, hpath, hreturned, replies_routed hpath⟩

end DericRpc.Routing
