import DericRpc.Routing

/-! cv.wait without a predicate: whether what _waitForResult returns is a reply that was
stored in the caller's item, when a wait may also end without a notification. -/
namespace DericRpc.Wakeups
open ByteString Common Serial Lts Waiting Routing
variable {P : MsgPack}

/-- serviceMessageCallback has stored the REPLAY message in the item of message `k` since the
item was added. -/
def Stored (P : MsgPack) (k : Int32) (msg : Bytes) (past : List (Move ClientEntry Act)) : Prop :=
  Since (fun _ m => Replies P m.act k msg ∧ m.post.waitingItems k = some msg)
    (fun m => m.act = .addItem k) past

/-- What a caller has got is a reply stored in its item. -/
def OnlyReplies (P : MsgPack) (past : List (Move ClientEntry Act)) (e : ClientEntry) : Prop :=
  ∀ k str, (e.callers k).result = some str → Stored P k str past

/-- A wait that ends without a notification finds a message in its item. -/
def Replied (e : ClientEntry) : Act → Prop
  | .spuriousWake k => ∃ msg, e.waitingItems k = some msg ∧ msg ≠ []
  | _ => True

structure StoredInv (P : MsgPack) (past : List (Move ClientEntry Act)) (e : ClientEntry) : Prop where
  inv : Inv P e
  items : ∀ k msg, e.waitingItems k = some msg → msg ≠ [] → Stored P k msg past
  results : OnlyReplies P past e

theorem storedInv_init : StoredInv P [] {} := ⟨inv_init, nofun, nofun⟩

theorem reply_ne_nil {msg : Bytes} (h : readType P msg = MessageType.replay.code) :
    msg ≠ [] := by
  rintro rfl
  rw [readType, P.nth_nil] at h
  exact absurd h (show ¬(-1 : Int32) = MessageType.replay.code by decide)

theorem Stored.ne_nil {k : Int32} {msg : Bytes} {past : List (Move ClientEntry Act)}
    (h : Stored P k msg past) : msg ≠ [] := by
  obtain ⟨-, -, -, -, ⟨⟨-, htype, -⟩, -⟩, -⟩ := h
  exact reply_ne_nil htype

theorem addItem_sent {e e' : ClientEntry} {k : Int32} (h : step P e (.addItem k) = some e') :
    e.callers k = .sent := (Option.ite_none_right_eq_some.mp h).1

theorem Stored.kept {e e' : ClientEntry} {a : Act} {k : Int32} {msg : Bytes}
    {past : List (Move ClientEntry Act)} (hs : Stored P k msg past) (h : step P e a = some e')
    (hp : e.callers k ≠ .sent) : Stored P k msg (past ++ [⟨e, a, e'⟩]) :=
  hs.snoc fun ha => hp (addItem_sent (by rwa [show a = .addItem k from ha] at h))

theorem StoredInv.not_sent {past : List (Move ClientEntry Act)} {e : ClientEntry}
    (hi : StoredInv P past e) {k : Int32} {msg : Bytes} (hm : e.waitingItems k = some msg) :
    e.callers k ≠ .sent := by
  intro hp
  have hc := hi.inv.caller k
  rw [hp] at hc
  cases hm.symm.trans hc

theorem items_step {past : List (Move ClientEntry Act)} {e e' : ClientEntry} {a : Act}
    (hi : StoredInv P past e) (h : step P e a = some e') (k : Int32) (msg : Bytes)
    (hm : e'.waitingItems k = some msg) (hne : msg ≠ []) :
    Stored P k msg (past ++ [⟨e, a, e'⟩]) := by
  have hold (hm : e.waitingItems k = some msg) : Stored P k msg (past ++ [⟨e, a, e'⟩]) :=
    (hi.items k msg hm hne).kept h (hi.not_sent hm)
  rcases step_item h k with ⟨-, hsame⟩ | ⟨new, hreplies, hnew, -⟩ | ⟨-, hitem, -⟩
  · exact hold (hsame ▸ hm)
  · obtain rfl : new = msg := Option.some.inj (hnew.symm.trans hm)
    exact .of_last ⟨hreplies, hm⟩
  · exact hold ((hitem msg hm).resolve_left hne)

/-- A result that is new comes from the caller's item; on a wakeup that is not spurious the
item has a reply. -/
theorem results_step {past : List (Move ClientEntry Act)} {e e' : ClientEntry} {a : Act}
    (hi : StoredInv P past e) (h : step P e a = some e') (ha : Replied e a) :
    OnlyReplies P (past ++ [⟨e, a, e'⟩]) e' := by
  intro k str hstr
  have hitem (msg : Bytes) (hm : e.waitingItems k = some msg) (hne : msg ≠ []) :
      Stored P k msg (past ++ [⟨e, a, e'⟩]) := (hi.items k msg hm hne).kept h (hi.not_sent hm)
  have hold (hr : (e.callers k).result = some str) : Stored P k str (past ++ [⟨e, a, e'⟩]) := by
    refine (hi.results k str hr).kept h fun hp => ?_
    rw [hp] at hr
    cases hr
  have hwake (he : a = .spuriousWake k) : ∃ msg, e.waitingItems k = some msg ∧ msg ≠ [] := by
    rwa [he] at ha
  have hstep := step_caller h k
  have hc := hi.inv.caller k
  generalize e.callers k = p, e.waitingItems k = item, e'.callers k = p',
    e'.waitingItems k = item' at hc hitem hold hwake hstep hstr
  cases hstep with
  | same => exact hold hstr
  | resume =>
    obtain ⟨msg, rfl, hanswer⟩ := hc
    obtain rfl : msg = str := by simpa [Phase.result] using hstr
    exact hitem msg rfl (reply_ne_nil hanswer.2.1)
  | spuriousWake item he =>
    obtain ⟨msg, rfl, hne⟩ := hwake he
    obtain rfl : msg = str := by simpa [Phase.result] using hstr
    exact hitem msg rfl hne
  | removed str' => exact hold (by simpa [Phase.result] using hstr)
  | reply p => exact hold (by cases p <;> exact hstr)
  | _ => simp [Phase.result] at hstr

theorem storedInv_step {past : List (Move ClientEntry Act)} {e e' : ClientEntry} {a : Act}
    (hi : StoredInv P past e) (ha : Replied e a) (h : step P e a = some e') :
    StoredInv P (past ++ [⟨e, a, e'⟩]) e' :=
  ⟨step_inv h hi.inv, items_step hi h, results_step hi h ha⟩

/-- A spurious wakeup that finds no reply hands the caller the empty string. -/
theorem replied_of_onlyReplies {past : List (Move ClientEntry Act)} {e e' : ClientEntry} {a : Act}
    (hi : StoredInv P past e) (h : step P e a = some e')
    (hr : OnlyReplies P (past ++ [⟨e, a, e'⟩]) e') : Replied e a := by
  cases a with
  | spuriousWake k =>
    obtain ⟨hp, rfl⟩ := enabled h
    have hc := hi.inv.caller k
    rw [hp] at hc
    obtain ⟨msg, hm, -⟩ := hc
    have hresult : ((takeResult e k).callers k).result = some msg := by
      simp [takeResult, hm, Phase.result]
    exact ⟨msg, hm, (hr k msg hresult).ne_nil⟩
  | _ => trivial

/-- In every run of any callers: whatever _waitForResult returns with 0 is a reply stored in
the caller's item since it was added, exactly when no wait ends without a notification before
a reply is there. -/
theorem onlyReplies_iff {ms : List (Move ClientEntry Act)} {e : ClientEntry}
    (h : Path (step P) {} ms e) :
    Along (OnlyReplies P) ms ↔ ∀ m ∈ ms, Replied m.pre m.act :=
  (h.along_iff (I := StoredInv P) storedInv_init
    (fun _ _ _ _ hi ha hs => storedInv_step hi ha hs) fun _ _ _ _ hi hs =>
      ⟨fun hr => replied_of_onlyReplies hi hs hr, fun ha => results_step hi hs ha⟩).1

/-- The reply comes before the wait, and the wait ends by itself. -/
theorem onlyReplies_iff_early : ∃ ms e, Path (step standard) {} ms e ∧
    e.callers 1 = .returned (header standard .replay emptyStr 1) 0 ∧
    Along (OnlyReplies standard) ms := by
  let msg := header standard .replay emptyStr 1
  have htype : readType standard msg = MessageType.replay.code := first_reply.1
  have hid : readId standard msg = 1 := first_reply.2
  obtain ⟨e, hmeets, hreturned⟩ : ∃ e, Meets (step standard) Replied {}
      [.send 1, .post msg, .addItem 1, .callback msg, .wait 1, .spuriousWake 1, .removeItem 1] e ∧
      e.callers 1 = .returned msg 0 := by
    simp [Meets, Replied, step, addResultWaitingItem, ClientEntry.move, ClientEntry.setItem,
      serviceMessageCallback, htype, hid, Phase.notify, takeResult, removeResultWaitingItem,
      reply_ne_nil htype]
  obtain ⟨ms, hp, hms⟩ := hmeets.path
  exact ⟨ms, e, hp, hreturned, (onlyReplies_iff hp).mpr hms⟩

/-- The wait ends by itself before any reply, and _waitForResult returns 0. -/
theorem returns_without_reply :
    ¬ ∀ (ms : List (Move ClientEntry Act)) (e : ClientEntry), Path (step standard) {} ms e →
      ∀ k str, e.callers k = .returned str 0 → Stored standard k str ms := by
  intro h
  obtain ⟨e, hrun, hreturned⟩ : ∃ e, run (step standard) {}
      [.send 1, .addItem 1, .wait 1, .spuriousWake 1, .removeItem 1] = some e ∧
      e.callers 1 = .returned [] 0 := ⟨_, rfl, rfl⟩
  obtain ⟨ms, hp, -⟩ := path_of_run hrun
  exact (h ms e hp 1 [] hreturned).ne_nil rfl

end DericRpc.Wakeups
