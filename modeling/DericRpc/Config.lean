import DericRpc.Lib.ByteString
import Mathlib.Data.List.DropRight
import Mathlib.Logic.Function.Basic
import Mathlib.Tactic.SplitIfs

/-! RpcConfig: lines of the form key = value, scanned with size_t indices. What the C++
code may not do (an access outside the string, a range that is not one, an exception) is a
fault. -/
namespace DericRpc.Config
open ByteString

/-- A std::string; no string is as long as the range of size_t. -/
abbrev CppString := { s : Bytes // s.length < 2 ^ 63 }

def npos : Nat := 2 ^ 64 - 1

/-- Addition in size_t. -/
def sizeAdd (i j : Nat) : Nat := (i + j) % 2 ^ 64

inductive Fault where
  | access (index : Nat)
  | range (index : Nat)
  | outOfRange (index : Nat)
  deriving DecidableEq

def space : UInt8 := 32
def hash : UInt8 := 35
def equalSign : UInt8 := 61

/-- m_configItemMap. -/
abbrev ItemMap := Bytes → Option Bytes

/-- emplace keeps an item that is there. -/
def emplace (items : ItemMap) (key value : Bytes) : ItemMap :=
  match items key with
  | some _ => items
  | none => Function.update items key (some value)

def find (buf : Bytes) (c : UInt8) : Nat := (buf.findIdx? (· == c)).getD npos

def findFirstNotOf (buf : Bytes) (c : UInt8) (pos : Nat) : Nat :=
  ((buf.drop pos).findIdx? (· != c)).elim npos fun i => pos + i

/-- The loop that looks for the end of the key; its guard index >= 0 always holds. -/
def scanBack (buf : Bytes) (index : Nat) : Except Fault Nat :=
  match buf[index]? with
  | none => .error (.access index)
  | some c =>
    if c = space then
      match index with
      | 0 => .error (.access npos)
      | i + 1 => scanBack buf i
    else .ok index

def parseLine (items : ItemMap) (buf : CppString) : Except Fault ItemMap :=
  if buf.1 = [] ∨ buf.1.head? = some hash then .ok items
  else
    -- a line without '=' is logged, and the scan goes on from npos
    let equalPos := find buf.1 equalSign
    (scanBack buf.1 (sizeAdd equalPos npos)).bind fun index =>
      if index = npos then .ok items
      else if buf.1.length < index + 1 then .error (.range (index + 1))
      else
        let key := buf.1.take (index + 1)
        let index := findFirstNotOf buf.1 space (sizeAdd equalPos 1)
        if index = npos then .ok items
        else if buf.1.length < index then .error (.outOfRange index)
        else .ok (emplace items key (buf.1.drop index))

/-- A file that cannot be opened has no lines. -/
def init (items : ItemMap) (configFile : Option (List CppString)) :
    Except Fault (ItemMap × Int) :=
  match configFile with
  | none => .ok (items, -1)
  | some lines => (lines.foldlM parseLine items).map fun items => (items, 0)

/-- The first component is what is assigned to val, if anything is. -/
def getValue (items : ItemMap) (key : Bytes) : Option Bytes × Int :=
  match items key with
  | none => (none, -1)
  | some value => (some value, 0)

/-- The line split at its first '='. -/
def SplitAt (buf front back : Bytes) : Prop := buf = front ++ equalSign :: back ∧ equalSign ∉ front

/-- No '=', or nothing but spaces on one side of the first one. -/
def Malformed (buf : Bytes) : Prop :=
  equalSign ∉ buf ∨ ∃ front back, SplitAt buf front back ∧
    ((∀ c ∈ front, c = space) ∨ ∀ c ∈ back, c = space)

/-- Without the spaces at the end, or at the start. -/
def trimEnd (s : Bytes) : Bytes := s.rdropWhile (· == space)
def trimStart (s : Bytes) : Bytes := s.dropWhile (· == space)

/-- Lines that parseLine leaves alone before it looks for '=', and those with a key. -/
def Keyed (buf : Bytes) : Prop :=
  buf = [] ∨ buf.head? = some hash ∨
    ∃ front back, SplitAt buf front back ∧ ∃ c ∈ front, c ≠ space

/-- The line is parsed without a fault, and a malformed one adds nothing. -/
def ParsesSafely (buf : CppString) : Prop :=
  ∀ items, ∃ items', parseLine items buf = .ok items' ∧ (Malformed buf.1 → items' = items)

theorem find_absent {buf : Bytes} {c : UInt8} (h : c ∉ buf) : find buf c = npos := by
  have hnone : buf.findIdx? (· == c) = none := by
    rw [List.findIdx?_eq_none_iff]
    intro x hx
    simpa using fun he : x = c => h (he ▸ hx)
  rw [find, hnone]
  rfl

theorem find_split {buf front back : Bytes} (h : SplitAt buf front back) :
    find buf equalSign = front.length := by
  obtain ⟨rfl, hfront⟩ := h
  have hnone : front.findIdx? (· == equalSign) = none := by
    rw [List.findIdx?_eq_none_iff]
    intro x hx
    simpa using fun he : x = equalSign => hfront (he ▸ hx)
  simp [find, List.findIdx?_append, List.findIdx?_cons, hnone]

theorem SplitAt.unique {buf front back front' back' : Bytes} (h : SplitAt buf front back)
    (h' : SplitAt buf front' back') : front = front' ∧ back = back' := by
  have hlength : front.length = front'.length := by
    have hfind := find_split h
    rwa [find_split h', eq_comm] at hfind
  obtain ⟨hfront, hback⟩ := List.append_inj (h.1.symm.trans h'.1) hlength
  exact ⟨hfront, (List.cons.inj hback).2⟩

theorem scanBack_outside {buf : Bytes} {index : Nat} (h : buf.length ≤ index) :
    scanBack buf index = .error (.access index) := by
  unfold scanBack
  rw [List.getElem?_eq_none h]

theorem scanBack_spaces {buf : Bytes} {index : Nat} (h : ∀ i ≤ index, buf[i]? = some space) :
    scanBack buf index = .error (.access npos) := by
  induction index with
  | zero =>
    rw [scanBack, h 0 le_rfl]
    rfl
  | succ i ih =>
    rw [scanBack, h (i+1) le_rfl]
    simpa using ih fun j hj => h j (by omega)

/-- A scan that has another character at or before its start stops inside the string, at the
last of them. -/
theorem scanBack_stops {buf : Bytes} {index : Nat} (hindex : index < buf.length)
    (hc : ∃ c ∈ buf.take (index + 1), c ≠ space) :
    ∃ j < buf.length, scanBack buf index = .ok j ∧
      buf.take (j + 1) = trimEnd (buf.take (index + 1)) := by
  have hsplit := List.take_append_getElem hindex
  rw [scanBack.eq_def, List.getElem?_eq_getElem hindex]
  by_cases hspace : buf[index] = space
  · have hdrop : trimEnd (buf.take (index + 1)) = trimEnd (buf.take index) := by
      rw [trimEnd, ← hsplit, List.rdropWhile_concat_pos _ _ _ (by simpa using hspace)]
      rfl
    rw [← hsplit] at hc
    obtain ⟨c, hmem, hne⟩ := hc
    have hold : c ∈ buf.take index := by
      rcases List.mem_append.mp hmem with hold | hlast
      · exact hold
      · exact absurd ((List.mem_singleton.mp hlast).trans hspace) hne
    cases index with
    | zero => simp at hold
    | succ k =>
      obtain ⟨j, hj, hscan, htake⟩ := scanBack_stops (by omega) ⟨c, hold, hne⟩
      exact ⟨j, hj, by simpa [hspace] using hscan, htake.trans hdrop.symm⟩
  · refine ⟨index, hindex, by simp [hspace], ?_⟩
    rw [trimEnd, ← hsplit, List.rdropWhile_concat_neg _ _ _ (by simpa using hspace)]

theorem findFirstNotOf_spaces {buf : Bytes} {pos : Nat} (h : ∀ c ∈ buf.drop pos, c = space) :
    findFirstNotOf buf space pos = npos := by
  have hnone : (buf.drop pos).findIdx? (· != space) = none := by
    rw [List.findIdx?_eq_none_iff]
    intro c hc
    simp [h c hc]
  rw [findFirstNotOf, hnone]
  rfl

theorem findFirstNotOf_found {buf : Bytes} {pos : Nat} {c : UInt8} (hc : c ∈ buf.drop pos)
    (hne : c ≠ space) :
    findFirstNotOf buf space pos < buf.length ∧
      buf.drop (findFirstNotOf buf space pos) = trimStart (buf.drop pos) := by
  rcases hfound : (buf.drop pos).findIdx? (· != space) with _ | i
  · rw [List.findIdx?_eq_none_iff] at hfound
    exact absurd (hfound c hc) (by simpa using hne)
  · have hlt := (List.findIdx?_eq_some_iff_getElem.mp hfound).1
    have hidx := (List.findIdx?_eq_some_iff_findIdx_eq.mp hfound).2
    rw [List.length_drop] at hlt
    have hpos : findFirstNotOf buf space pos = pos + i := by rw [findFirstNotOf, hfound]; rfl
    have hvalue : trimStart (buf.drop pos) = (buf.drop pos).drop i := by
      rw [trimStart, List.dropWhile_eq_drop_findIdx_not, ← hidx]
      rfl
    rw [hpos, hvalue, List.drop_drop]
    exact ⟨by omega, rfl⟩

theorem sizeAdd_npos {n : Nat} (hpos : 0 < n) (hlt : n < 2 ^ 63) : sizeAdd n npos = n - 1 := by
  have hsum : n + npos = (n - 1) + 2 ^ 64 := by
    simp only [npos]
    omega
  rw [sizeAdd, hsum, Nat.add_mod_right, Nat.mod_eq_of_lt (by omega)]

theorem sizeAdd_one {n : Nat} (hlt : n < 2 ^ 63) : sizeAdd n 1 = n + 1 :=
  Nat.mod_eq_of_lt (by omega)

/-- Without '=' the scan starts two below npos. -/
theorem parseLine_absent {items : ItemMap} {buf : CppString}
    (hcomment : ¬(buf.1 = [] ∨ buf.1.head? = some hash)) (habsent : equalSign ∉ buf.1) :
    parseLine items buf = .error (.access (2 ^ 64 - 2)) := by
  have hlen := buf.2
  have hstart : sizeAdd npos npos = 2 ^ 64 - 2 := by decide
  have hscan := scanBack_outside (show buf.1.length ≤ 2 ^ 64 - 2 by omega)
  rw [parseLine, if_neg hcomment, find_absent habsent]
  simp only [hstart, hscan]
  rfl

/-- With only spaces before '=' the scan leaves the string at its front. -/
theorem parseLine_blankKey {items : ItemMap} {buf : CppString} {front back : Bytes}
    (hcomment : ¬(buf.1 = [] ∨ buf.1.head? = some hash)) (hsplit : SplitAt buf.1 front back)
    (hblank : ∀ c ∈ front, c = space) : parseLine items buf = .error (.access npos) := by
  have hlen := buf.2
  have hscan : scanBack buf.1 (sizeAdd front.length npos) = .error (.access npos) := by
    rcases Nat.eq_zero_or_pos front.length with hzero | hpos
    · have hstart : sizeAdd 0 npos = npos := by decide
      rw [hzero, hstart]
      refine scanBack_outside ?_
      simp only [npos]
      omega
    · rw [hsplit.1, List.length_append] at hlen
      rw [sizeAdd_npos hpos (by omega)]
      refine scanBack_spaces fun i hi => ?_
      have hlt : i < front.length := by omega
      rw [hsplit.1, List.getElem?_append_left hlt, List.getElem?_eq_getElem hlt]
      exact congrArg some (hblank _ (List.getElem_mem hlt))
  rw [parseLine, if_neg hcomment, find_split hsplit]
  simp only [hscan]
  rfl

theorem parseLine_split (items : ItemMap) {buf : CppString} {front back : Bytes}
    (hcomment : ¬(buf.1 = [] ∨ buf.1.head? = some hash)) (hsplit : SplitAt buf.1 front back)
    (hkey : ∃ c ∈ front, c ≠ space) :
    parseLine items buf = .ok (if back.all (· == space) then items
      else emplace items (trimEnd front) (trimStart back)) := by
  have hlen := buf.2
  have hlength : buf.1.length = front.length + (back.length + 1) := by
    rw [hsplit.1, List.length_append, List.length_cons]
  have hpos : 0 < front.length := by
    obtain ⟨c, hc, -⟩ := hkey
    exact List.length_pos_of_mem hc
  have hback : buf.1.drop (front.length + 1) = back := by
    rw [hsplit.1]
    simp [List.drop_append]
  have hfront : buf.1.take (front.length - 1 + 1) = front := by
    rw [Nat.sub_add_cancel hpos, hsplit.1]
    simp
  have hstart : front.length - 1 < buf.1.length := by omega
  obtain ⟨j, hj, hscan, hend⟩ := scanBack_stops hstart (by rwa [hfront])
  have hnpos : j ≠ npos := by
    simp only [npos]
    omega
  rw [parseLine, if_neg hcomment]
  simp only [find_split hsplit]
  rw [sizeAdd_npos hpos (by omega), hscan, sizeAdd_one (by omega)]
  simp only [Except.bind, if_neg hnpos, if_neg (show ¬buf.1.length < j + 1 by omega)]
  rw [hend, hfront]
  by_cases hvalue : back.all (· == space)
  · rw [findFirstNotOf_spaces (by simpa [hback] using hvalue), if_pos rfl, if_pos hvalue]
  · rw [if_neg hvalue]
    obtain ⟨d, hd, hdne⟩ : ∃ d ∈ back, d ≠ space := by simpa using hvalue
    obtain ⟨hfound, hdrop⟩ := findFirstNotOf_found (hback.symm ▸ hd) hdne
    have hin : findFirstNotOf buf.1 space (front.length + 1) ≠ npos := by
      simp only [npos]
      omega
    rw [if_neg hin, if_neg (by omega), hdrop, hback]

theorem parseLine_keyed (items : ItemMap) {buf : CppString} {front back : Bytes}
    (hsplit : SplitAt buf.1 front back) (hkey : ∃ c ∈ front, c ≠ space) :
    ∃ items', parseLine items buf = .ok items' ∧ ((∀ c ∈ back, c = space) → items' = items) := by
  by_cases hcomment : buf.1 = [] ∨ buf.1.head? = some hash
  · exact ⟨items, if_pos hcomment, fun _ => rfl⟩
  · exact ⟨_, parseLine_split items hcomment hsplit hkey,
      fun hspaces => if_pos (by simpa using hspaces)⟩

/-- A line is parsed safely exactly when it is empty, a comment or has a key. -/
theorem parsesSafely_iff (buf : CppString) : ParsesSafely buf ↔ Keyed buf.1 := by
  by_cases hcomment : buf.1 = [] ∨ buf.1.head? = some hash
  · have hskip : ∀ items, parseLine items buf = .ok items := fun items => if_pos hcomment
    exact ⟨fun _ => hcomment.imp_right .inl, fun _ items => ⟨items, hskip items, fun _ => rfl⟩⟩
  constructor
  · intro hsafe
    obtain ⟨items', hok, -⟩ := hsafe fun _ => none
    by_cases hmem : equalSign ∈ buf.1
    · obtain ⟨front, back, hbuf, hfront⟩ := List.eq_append_cons_of_mem hmem
      refine .inr (.inr ⟨front, back, ⟨hbuf, hfront⟩, ?_⟩)
      by_contra hblank
      push Not at hblank
      rw [parseLine_blankKey hcomment ⟨hbuf, hfront⟩ hblank] at hok
      cases hok
    · rw [parseLine_absent hcomment hmem] at hok
      cases hok
  · rintro (hempty | hhash | ⟨front, back, hsplit, hkey⟩) items
    · exact absurd (.inl hempty) hcomment
    · exact absurd (.inr hhash) hcomment
    · obtain ⟨items', hok, hvalue⟩ := parseLine_keyed items hsplit hkey
      refine ⟨items', hok, fun hmal => ?_⟩
      rcases hmal with habsent | ⟨front', back', hsplit', hblank⟩
      · exact absurd (hsplit.1 ▸ List.mem_append_right _ List.mem_cons_self) habsent
      · obtain ⟨rfl, rfl⟩ := hsplit.unique hsplit'
        rcases hblank with hblank | hblank
        · obtain ⟨c, hc, hne⟩ := hkey
          exact absurd (hblank c hc) hne
        · exact hvalue hblank

/-- The line abc is logged as invalid, and the scan reads two below npos. -/
theorem line_without_equal_faults : ¬ParsesSafely ⟨[97, 98, 99], by decide⟩ := by
  intro hsafe
  obtain ⟨items', hok, -⟩ := hsafe fun _ => none
  rw [parseLine_absent (by decide) (by decide)] at hok
  cases hok

end DericRpc.Config
