import DericRpc.Lib.ByteString

/-! Self-delimiting readers and object codecs: what a reader takes off the front of a
byte string does not depend on the bytes behind it. -/
namespace DericRpc.Codec
open ByteString
variable {α β : Type}

abbrev Reader (α : Type) := Bytes → Option (α × Bytes)

/-- `q` reads whatever `p` reads, also when more bytes follow. -/
def Extends (p q : Reader α) : Prop :=
  ∀ b a rest s, p b = some (a, rest) → q (b ++ s) = some (a, rest ++ s)

/-- Read exactly `n` items. -/
def many (p : Reader α) : Nat → Reader (List α)
  | 0, b => some ([], b)
  | n+1, b => (p b).bind fun (a, rest) => (many p n rest).map fun (as, r) => (a :: as, r)

def Reader.map (f : α → β) (p : Reader α) : Reader β := fun b =>
  (p b).map fun (a, rest) => (f a, rest)

def Reader.bind (p : Reader α) (k : α → Reader β) : Reader β := fun b =>
  (p b).bind fun (a, rest) => k a rest

/-- Read nothing and give `a`. -/
def Reader.done (a : α) : Reader α := fun b => some (a, b)

def Reader.fail : Reader α := fun _ => none

theorem extends_done (a : α) : Extends (Reader.done a) (Reader.done a) := by
  intro b c rest s hb
  obtain ⟨rfl, rfl⟩ : a = c ∧ b = rest := by simpa [Reader.done] using hb
  rfl

theorem extends_fail : Extends (Reader.fail : Reader α) Reader.fail :=
  fun _ _ _ _ h => nomatch h

theorem Extends.map {p q : Reader α} (h : Extends p q) (f : α → β) :
    Extends (Reader.map f p) (Reader.map f q) := by
  intro b c rest s hb
  obtain ⟨⟨a, r⟩, ha, he⟩ := Option.map_eq_some_iff.mp hb
  obtain ⟨rfl, rfl⟩ : f a = c ∧ r = rest := by simpa using he
  simp [Reader.map, h b a r s ha]

theorem Extends.bind {p q : Reader α} {k l : α → Reader β} (h : Extends p q)
    (hk : ∀ a, Extends (k a) (l a)) : Extends (Reader.bind p k) (Reader.bind q l) := by
  intro b c rest s hb
  obtain ⟨⟨a, r⟩, ha, hc⟩ := Option.bind_eq_some_iff.mp hb
  simp [Reader.bind, h b a r s ha, hk a r c rest s hc]

theorem Extends.many {p q : Reader α} (h : Extends p q) (n : Nat) :
    Extends (many p n) (many q n) := by
  induction n with
  | zero =>
    intro b as rest s hb
    obtain ⟨rfl, rfl⟩ : [] = as ∧ b = rest := by simpa [Codec.many] using hb
    rfl
  | succ n ih =>
    intro b as rest s hb
    obtain ⟨⟨a, r⟩, ha, hr⟩ := Option.bind_eq_some_iff.mp hb
    obtain ⟨⟨as', r'⟩, has, he⟩ := Option.map_eq_some_iff.mp hr
    obtain ⟨rfl, rfl⟩ : a :: as' = as ∧ r' = rest := by simpa using he
    simp [Codec.many, h b a r s ha, ih r as' r' s has]

theorem extends_takeN (n : Nat) : Extends (takeN n) (takeN n) :=
  fun _ _ _ s h => takeN_extend h s

/-- A codec of objects: `pack` writes one object, `unpack` reads one off the front or
throws (`none`), and neither looks at the bytes behind the object. -/
structure ObjectCodec where
  Obj : Type
  pack : Obj → Bytes
  unpack : Reader Obj
  unpack_pack : ∀ o rest, unpack (pack o ++ rest) = some (o, rest)
  unpack_extends : Extends unpack unpack
  unpack_nil : unpack [] = none

/-- A type whose values can be packed: `as` throws (`none`) on an object of another
type, `init` is the value-initialised `T()`. -/
structure Convert (O T : Type) where
  toObj : T → O
  as : O → Option T
  as_toObj : ∀ t, as (toObj t) = some t
  init : T

namespace ObjectCodec
variable (P : ObjectCodec)

theorem pack_ne_nil (o : P.Obj) : P.pack o ≠ [] := by
  intro h
  have hr := P.unpack_pack o []
  simp [h, P.unpack_nil] at hr

theorem unpack_truncated {o : P.Obj} {b s : Bytes} (h : b ++ s = P.pack o) (hs : s ≠ []) :
    P.unpack b = none := by
  cases hb : P.unpack b with
  | none => rfl
  | some r =>
    have hfull := P.unpack_extends b r.1 r.2 s hb
    have hpack := P.unpack_pack o []
    rw [List.append_nil] at hpack
    rw [h, hpack] at hfull
    simp_all

/-- The object at position `n`, each unpack starting where the one before it ended. -/
def nth : Nat → Bytes → Option P.Obj
  | 0, b => (P.unpack b).map Prod.fst
  | n+1, b => (P.unpack b).bind fun (_, rest) => nth n rest

@[simp] theorem nth_zero_pack (o : P.Obj) (rest : Bytes) :
    P.nth 0 (P.pack o ++ rest) = some o := by
  simp [nth, P.unpack_pack]

@[simp] theorem nth_succ_pack (n : Nat) (o : P.Obj) (rest : Bytes) :
    P.nth (n+1) (P.pack o ++ rest) = P.nth n rest := by
  simp [nth, P.unpack_pack]

@[simp] theorem nth_nil (n : Nat) : P.nth n [] = none := by
  cases n <;> simp [nth, P.unpack_nil]

/-- Objects packed one behind the other. -/
def packAll (os : List P.Obj) : Bytes := os.flatMap P.pack

@[simp] theorem packAll_cons (o : P.Obj) (os : List P.Obj) :
    P.packAll (o :: os) = P.pack o ++ P.packAll os := rfl

@[simp] theorem packAll_nil : P.packAll [] = [] := rfl

theorem packAll_take_length (os : List P.Obj) (n : Nat) :
    (P.packAll (os.take n)).length ≤ (P.packAll os).length := by
  have hsplit : P.packAll (os.take n) ++ P.packAll (os.drop n) = P.packAll os := by
    rw [packAll, packAll, ← List.flatMap_append, List.take_append_drop, packAll]
  rw [← hsplit, List.length_append]
  exact Nat.le_add_right _ _

theorem nth_packAll {os : List P.Obj} {n : Nat} (h : n < os.length) (rest : Bytes) :
    P.nth n (P.packAll os ++ rest) = os[n]? := by
  induction os generalizing n with
  | nil => exact absurd h (Nat.not_lt_zero n)
  | cons o os ih =>
    rw [packAll_cons, List.append_assoc]
    cases n with
    | zero => rw [nth_zero_pack, List.getElem?_cons_zero]
    | succ n =>
      rw [nth_succ_pack, List.getElem?_cons_succ]
      exact ih (Nat.lt_of_succ_lt_succ h)

/-- A byte string cut off after `k` bytes keeps the objects that end within them. -/
theorem nth_packAll_take (os : List P.Obj) (n k : Nat) :
    P.nth n ((P.packAll os).take k) =
      if (P.packAll (os.take (n+1))).length ≤ k then os[n]? else none := by
  induction os generalizing n k with
  | nil => simp
  | cons o os ih =>
    rw [packAll_cons, List.take_append, List.take_succ_cons, packAll_cons, List.length_append]
    by_cases hk : (P.pack o).length ≤ k
    · rw [List.take_of_length_le hk]
      cases n with
      | zero => simp [hk]
      | succ n =>
        rw [nth_succ_pack, ih, List.getElem?_cons_succ]
        refine if_congr ?_ rfl rfl
        omega
    · have hlt : k < (P.pack o).length := Nat.lt_of_not_le hk
      have hrest : (P.pack o).drop k ≠ [] := by
        rw [ne_eq, List.drop_eq_nil_iff]
        exact hk
      have hcut := P.unpack_truncated (List.take_append_drop k (P.pack o)) hrest
      rw [Nat.sub_eq_zero_of_le hlt.le, List.take_zero, List.append_nil, if_neg (by omega)]
      cases n with
      | zero => rw [nth, hcut, Option.map_none]
      | succ n => rw [nth, hcut, Option.bind_none]

theorem nth_append_take {os : List P.Obj} {n : Nat} (h : n < os.length) (rest : Bytes) (k : Nat) :
    P.nth n ((P.packAll os ++ rest).take k) =
      if (P.packAll (os.take (n+1))).length ≤ k then os[n]? else none := by
  rcases Nat.le_total k (P.packAll os).length with hk | hk
  · rw [List.take_append_of_le_length hk, nth_packAll_take]
  · have hend : (P.packAll (os.take (n+1))).length ≤ k := (packAll_take_length P os (n+1)).trans hk
    rw [List.take_append, List.take_of_length_le hk, nth_packAll P h, if_pos hend]

end ObjectCodec
end DericRpc.Codec
