import DericRpc.Lib.Lts
import Mathlib.Data.List.Nodup
import Mathlib.Logic.Function.Basic

/-! Clients that put requests to one server, each over two queues of its own. Whatever the
interleaving, the server is where it would be had it taken the requests of its history one
after the other, and each client sees its own part of that history, in order. -/
namespace DericRpc.Exchange
open Lts
variable {C S L Q R : Type*}

/-- A server by itself: it changes on its own, and it handles one request at a time, with a
reply or without. -/
structure Server (S L Q R : Type*) where
  change : S → L → S
  handle : S → Q → S × Option R

/-- What the server has done. -/
inductive Event (C L Q : Type*) where
  | change (l : L)
  | handled (c : C) (q : Q)

def Server.next (srv : Server S L Q R) (s : S) : Event C L Q → S
  | .change l => srv.change s l
  | .handled _ q => (srv.handle s q).1

/-- The server after a history. -/
def Server.after (srv : Server S L Q R) (s : S) (es : List (Event C L Q)) : S :=
  es.foldl srv.next s

section
variable [DecidableEq C]

/-- The request, where the event is the handling of one of client `c`. -/
def Event.request (c : C) : Event C L Q → Option Q
  | .handled d q => if d = c then some q else none
  | .change _ => none

/-- The requests of client `c` in a history. -/
def requests (c : C) (es : List (Event C L Q)) : List Q := es.filterMap (Event.request c)

/-- The reply that client `c` gets for an event. -/
def Server.reply (srv : Server S L Q R) (c : C) (s : S) : Event C L Q → Option R
  | .handled d q => if d = c then (srv.handle s q).2 else none
  | .change _ => none

/-- The replies that client `c` gets for a history. -/
def Server.replies (srv : Server S L Q R) (c : C) : S → List (Event C L Q) → List R
  | _, [] => []
  | s, e :: es => (srv.reply c s e).toList ++ srv.replies c (srv.next s e) es

end

variable {srv : Server S L Q R} {s : S} {c d : C} {q : Q} {r : R} {e : Event C L Q}
  {es pre post : List (Event C L Q)}

theorem after_append (srv : Server S L Q R) (s : S) (pre post : List (Event C L Q)) :
    srv.after s (pre ++ post) = srv.after (srv.after s pre) post := List.foldl_append

theorem after_concat (srv : Server S L Q R) (s : S) (es : List (Event C L Q)) (e : Event C L Q) :
    srv.after s (es ++ [e]) = srv.next (srv.after s es) e := by
  rw [after_append, Server.after, List.foldl_cons, List.foldl_nil]

variable [DecidableEq C]

@[simp] theorem request_handled (c d : C) (q : Q) :
    Event.request c (.handled d q : Event C L Q) = if d = c then some q else none := rfl
@[simp] theorem request_change (c : C) (l : L) :
    Event.request c (.change l : Event C L Q) = none := rfl
@[simp] theorem reply_handled (srv : Server S L Q R) (c d : C) (s : S) (q : Q) :
    srv.reply c s (.handled d q : Event C L Q) = if d = c then (srv.handle s q).2 else none := rfl
@[simp] theorem reply_change (srv : Server S L Q R) (c : C) (s : S) (l : L) :
    srv.reply c s (.change l : Event C L Q) = none := rfl

theorem requests_concat (c : C) (es : List (Event C L Q)) (e : Event C L Q) :
    requests c (es ++ [e]) = requests c es ++ (e.request c).toList := by
  rw [requests, List.filterMap_append, List.filterMap_cons]
  cases e.request c <;> rfl

theorem replies_concat (srv : Server S L Q R) (c : C) (s : S) (es : List (Event C L Q))
    (e : Event C L Q) :
    srv.replies c s (es ++ [e]) = srv.replies c s es ++ (srv.reply c (srv.after s es) e).toList := by
  induction es generalizing s with
  | nil => simp [Server.replies, Server.after]
  | cons x es ih =>
    rw [List.cons_append, Server.replies, Server.replies, ih, List.append_assoc]
    rfl

theorem mem_replies : r ∈ srv.replies c s es ↔
    ∃ pre q post, es = pre ++ .handled c q :: post ∧ (srv.handle (srv.after s pre) q).2 = some r := by
  induction es generalizing s with
  | nil => simp [Server.replies]
  | cons e es ih =>
    rw [Server.replies, List.mem_append, ih]
    constructor
    · rintro (hnow | ⟨pre, q, post, rfl, hr⟩)
      · cases e with
        | change l => cases hnow
        | handled d q =>
          rw [reply_handled, Option.mem_toList, Option.ite_none_right_eq_some] at hnow
          obtain ⟨rfl, hr⟩ := hnow
          exact ⟨[], q, es, rfl, hr⟩
      · exact ⟨e :: pre, q, post, rfl, hr⟩
    · rintro ⟨pre, q, post, hes, hr⟩
      cases pre with
      | nil =>
        obtain ⟨rfl, rfl⟩ := List.cons.inj hes
        left
        simpa [Server.after] using hr
      | cons x pre =>
        obtain ⟨rfl, rfl⟩ := List.cons.inj hes
        exact .inr ⟨pre, q, post, rfl, hr⟩

theorem mem_requests : q ∈ requests c es ↔ Event.handled c q ∈ es := by
  rw [requests, List.mem_filterMap]
  constructor
  · rintro ⟨e, he, hq⟩
    cases e with
    | change l => cases hq
    | handled d q' =>
      obtain ⟨rfl, hsome⟩ := Option.ite_none_right_eq_some.mp hq
      rwa [← Option.some.inj hsome]
  · intro h
    exact ⟨_, h, if_pos rfl⟩

/-- Where the requests of a client are all different, each of them was handled at one place. -/
theorem handled_once {pre' post' : List (Event C L Q)} (hn : (requests c es).Nodup)
    (h : es = pre ++ .handled c q :: post) (h' : es = pre' ++ .handled c q :: post') :
    pre = pre' ∧ post = post' := by
  have hsplit : requests c es = requests c pre ++ q :: requests c post := by
    simp [h, requests, List.filterMap_append]
  rw [hsplit] at hn
  obtain ⟨hnot, -⟩ := List.nodup_cons.mp (List.nodup_middle.mp hn)
  have hpre : .handled c q ∉ pre := fun hm =>
    hnot (List.mem_append_left _ (mem_requests.mpr hm))
  have hpost : .handled c q ∉ post := fun hm =>
    hnot (List.mem_append_right _ (mem_requests.mpr hm))
  obtain ⟨hp, -, hq⟩ := (List.append_cons_inj_of_notMem hpre hpost).mp (h.symm.trans h')
  exact ⟨hp, hq⟩

/-! The server with its clients. -/

/-- `issued` and `received` keep all requests that a client has put and all replies that it has
taken; `past` is what the server has done. -/
structure State (C S L Q R : Type*) where
  server : S
  past : List (Event C L Q) := []
  requests : C → List Q := fun _ => []
  replies : C → List R := fun _ => []
  issued : C → List Q := fun _ => []
  received : C → List R := fun _ => []

inductive Act (C L Q : Type*) where
  | request (c : C) (q : Q)
  | change (l : L)
  | handle (c : C)
  | receive (c : C)

/-- Append to the list of one client. -/
def push {X : Type*} (xs : C → List X) (c : C) (new : List X) : C → List X :=
  Function.update xs c (xs c ++ new)

def step (srv : Server S L Q R) (u : State C S L Q R) : Act C L Q → Option (State C S L Q R)
  | .request c q =>
    some { u with requests := push u.requests c [q], issued := push u.issued c [q] }
  | .change l => some { u with server := srv.change u.server l, past := u.past ++ [.change l] }
  | .handle c =>
    match u.requests c with
    | [] => none
    | q :: rest =>
      let out := srv.handle u.server q
      some { u with
        server := out.1
        past := u.past ++ [.handled c q]
        requests := Function.update u.requests c rest
        replies := push u.replies c out.2.toList }
  | .receive c =>
    match u.replies c with
    | [] => none
    | r :: rest =>
      some { u with
        replies := Function.update u.replies c rest
        received := push u.received c [r] }

@[simp] theorem push_self {X : Type*} (xs : C → List X) (c : C) (new : List X) :
    push xs c new c = xs c ++ new := Function.update_self ..
theorem push_of_ne {X : Type*} (xs : C → List X) {c d : C} (new : List X) (h : d ≠ c) :
    push xs c new d = xs d := Function.update_of_ne h ..
@[simp] theorem push_nil {X : Type*} (xs : C → List X) (c : C) : push xs c [] = xs := by
  rw [push, List.append_nil, Function.update_eq_self]

/-- The state is what the server by itself makes of the history: its own state, for each client
the requests handled so far with those still queued, and the replies taken so far with those
still queued. -/
structure Linear (srv : Server S L Q R) (s : S) (u : State C S L Q R) : Prop where
  server : u.server = srv.after s u.past
  requests : ∀ c, requests c u.past ++ u.requests c = u.issued c
  replies : ∀ c, u.received c ++ u.replies c = srv.replies c s u.past

theorem linear_init (srv : Server S L Q R) (s : S) :
    Linear srv s ({ server := s } : State C S L Q R) := ⟨rfl, fun _ => rfl, fun _ => rfl⟩

variable {u v : State C S L Q R} {a : Act C L Q}

theorem step_linear (hu : Linear srv s u) (h : step srv u a = some v) : Linear srv s v := by
  cases a with
  | request c q =>
    obtain rfl := Option.some.inj h
    refine ⟨hu.server, fun d => ?_, hu.replies⟩
    dsimp only
    by_cases hd : d = c
    · subst hd
      rw [push_self, push_self, ← List.append_assoc, hu.requests]
    · rw [push_of_ne _ _ hd, push_of_ne _ _ hd, hu.requests]
  | change l =>
    obtain rfl := Option.some.inj h
    refine ⟨?_, fun c => ?_, fun c => ?_⟩
    · rw [after_concat, ← hu.server]
      rfl
    · dsimp only
      rw [requests_concat, request_change, Option.toList_none, List.append_nil, hu.requests]
    · dsimp only
      rw [replies_concat, reply_change, Option.toList_none, List.append_nil, hu.replies]
  | handle c =>
    cases hq : u.requests c with
    | nil => simp [step, hq] at h
    | cons q rest =>
      simp only [step, hq] at h
      obtain rfl := Option.some.inj h
      refine ⟨?_, fun d => ?_, fun d => ?_⟩
      · rw [after_concat, ← hu.server]
        rfl
      · dsimp only
        rw [requests_concat, request_handled]
        by_cases hd : d = c
        · subst hd
          rw [if_pos rfl, Function.update_self, Option.toList_some, List.append_assoc,
            List.singleton_append, ← hq, hu.requests]
        · rw [if_neg (Ne.symm hd), Function.update_of_ne hd, Option.toList_none, List.append_nil,
            hu.requests]
      · dsimp only
        rw [replies_concat, reply_handled, ← hu.server, ← hu.replies]
        by_cases hd : d = c
        · subst hd
          rw [if_pos rfl, push_self, List.append_assoc]
        · rw [if_neg (Ne.symm hd), push_of_ne _ _ hd, Option.toList_none, List.append_nil]
  | receive c =>
    cases hr : u.replies c with
    | nil => simp [step, hr] at h
    | cons r rest =>
      simp only [step, hr] at h
      obtain rfl := Option.some.inj h
      refine ⟨hu.server, hu.requests, fun d => ?_⟩
      dsimp only
      by_cases hd : d = c
      · subst hd
        rw [push_self, Function.update_self, List.append_assoc, List.singleton_append, ← hr,
          hu.replies]
      · rw [push_of_ne _ _ hd, Function.update_of_ne hd, hu.replies]

/-- A reply that a client has taken was given to a request that it had put. -/
theorem Linear.received (hu : Linear srv s u) (hr : r ∈ u.received c) :
    ∃ pre q post, u.past = pre ++ .handled c q :: post ∧
      (srv.handle (srv.after s pre) q).2 = some r ∧ q ∈ u.issued c := by
  have hmem : r ∈ srv.replies c s u.past := by
    rw [← hu.replies]
    exact List.mem_append_left _ hr
  obtain ⟨pre, q, post, hpast, hreply⟩ := mem_replies.mp hmem
  refine ⟨pre, q, post, hpast, hreply, ?_⟩
  rw [← hu.requests]
  exact List.mem_append_left _ (mem_requests.mpr (by simp [hpast]))

end DericRpc.Exchange
