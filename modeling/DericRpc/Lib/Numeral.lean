import DericRpc.Lib.ByteString
import Mathlib.Data.List.TakeWhile
import Mathlib.Data.Nat.Digits.Defs

/-! Decimal numerals in byte strings: the one at the front of a text, as strtol reads it, and
the number that a whole text denotes. -/
namespace DericRpc.Numeral
open ByteString

def plus : UInt8 := 43
def minus : UInt8 := 45

def isdigit (c : UInt8) : Bool := decide (48 ≤ c ∧ c ≤ 57)

/-- White space of the C locale. -/
def isspace (c : UInt8) : Bool := decide (c = 32 ∨ (9 ≤ c ∧ c ≤ 13))

def digit (c : UInt8) : Nat := c.toNat - 48

/-- Whether there is a minus sign, and what follows the sign. -/
def splitSign : Bytes → Bool × Bytes
  | [] => (false, [])
  | c :: s => if c = minus then (true, s) else if c = plus then (false, s) else (false, c :: s)

def decimal (s : Bytes) : Nat := s.foldl (fun acc c => acc * 10 + digit c) 0

def signed (negative : Bool) (n : Nat) : Int := if negative then -n else n

/-- The number at the front of the text, if there is one: strtol in base 10, without the
limits of its type. -/
def leadingNumber (text : Bytes) : Option Int :=
  let s := splitSign (text.dropWhile isspace)
  let digits := s.2.takeWhile isdigit
  if digits = [] then none else some (signed s.1 (decimal digits))

def Blank (s : Bytes) : Prop := ∀ c ∈ s, isspace c = true

/-- At least one digit, the most significant first. -/
structure Digits (s : Bytes) (n : Nat) : Prop where
  nonempty : s ≠ []
  digits : ∀ c ∈ s, isdigit c = true
  value : n = Nat.ofDigits 10 (s.reverse.map digit)

inductive Decimal : Bytes → Int → Prop
  | unsigned {s : Bytes} {n : Nat} : Digits s n → Decimal s n
  | plus {s : Bytes} {n : Nat} : Digits s n → Decimal (plus :: s) n
  | minus {s : Bytes} {n : Nat} : Digits s n → Decimal (minus :: s) (-n)

/-- Behind blanks the text has a numeral for `z`, which no other digit follows. -/
def Leads (text : Bytes) (z : Int) : Prop :=
  ∃ front num back, text = front ++ (num ++ back) ∧ Blank front ∧ Decimal num z ∧
    ∀ c, back.head? = some c → isdigit c = false

/-- The text is a numeral for `z`, with or without blanks around it. -/
def Denotes (text : Bytes) (z : Int) : Prop :=
  ∃ front num back, text = front ++ (num ++ back) ∧ Blank front ∧ Decimal num z ∧ Blank back

theorem isdigit_of_isspace {c : UInt8} (h : isspace c = true) : isdigit c = false := by
  have hspace : c = 32 ∨ (9 ≤ c ∧ c ≤ 13) := of_decide_eq_true h
  refine decide_eq_false fun hdigit => ?_
  have hlow : 48 ≤ c.toNat := UInt8.le_iff_toNat_le.mp hdigit.1
  rcases hspace with rfl | ⟨-, hhigh⟩
  · exact absurd hlow (by decide)
  · have hhigh : c.toNat ≤ 13 := UInt8.le_iff_toNat_le.mp hhigh
    omega

theorem isspace_of_isdigit {c : UInt8} (h : isdigit c = true) : isspace c = false := by
  by_contra hspace
  rw [isdigit_of_isspace (by simpa using hspace)] at h
  cases h

theorem Denotes.leads {text : Bytes} {z : Int} (h : Denotes text z) : Leads text z := by
  obtain ⟨front, num, back, htext, hfront, hnum, hback⟩ := h
  refine ⟨front, num, back, htext, hfront, hnum, fun c hc => ?_⟩
  exact isdigit_of_isspace (hback c (List.mem_of_mem_head? hc))

theorem decimal_eq_ofDigits (s : Bytes) : decimal s = Nat.ofDigits 10 (s.reverse.map digit) := by
  rw [decimal, Nat.ofDigits_eq_foldr, List.foldr_map, List.foldr_reverse]
  congr 1
  funext acc c
  simp only [Nat.cast_id]
  ring

theorem takeWhile_digits {s back : Bytes} (hs : ∀ c ∈ s, isdigit c = true)
    (hback : ∀ c, back.head? = some c → isdigit c = false) :
    (s ++ back).takeWhile isdigit = s := by
  rw [List.takeWhile_append_of_pos hs]
  cases back with
  | nil => rw [List.takeWhile_nil, List.append_nil]
  | cons c back =>
    rw [List.takeWhile_cons_of_neg (by simp [hback c rfl]), List.append_nil]

theorem splitSign_digits {s back : Bytes} {n : Nat} (h : Digits s n) :
    splitSign (s ++ back) = (false, s ++ back) := by
  obtain ⟨c, s, rfl⟩ := List.exists_cons_of_ne_nil h.nonempty
  have hc := h.digits c List.mem_cons_self
  have hsign : c ≠ minus ∧ c ≠ plus :=
    ⟨fun he => absurd hc (by rw [he]; decide), fun he => absurd hc (by rw [he]; decide)⟩
  simp [splitSign, hsign]

theorem Decimal.split {num : Bytes} {z : Int} (h : Decimal num z) (back : Bytes) :
    ∃ negative s n, splitSign (num ++ back) = (negative, s ++ back) ∧ Digits s n ∧
      z = signed negative n := by
  cases h with
  | unsigned hs => exact ⟨false, _, _, splitSign_digits hs, hs, rfl⟩
  | plus hs => exact ⟨false, _, _, rfl, hs, rfl⟩
  | minus hs => exact ⟨true, _, _, rfl, hs, rfl⟩

theorem Decimal.dropWhile {num back : Bytes} {z : Int} (h : Decimal num z) :
    (num ++ back).dropWhile isspace = num ++ back := by
  have hhead : ∃ c s, num = c :: s ∧ isspace c = false := by
    cases h with
    | unsigned hs =>
      obtain ⟨c, s, rfl⟩ := List.exists_cons_of_ne_nil hs.nonempty
      exact ⟨c, s, rfl, isspace_of_isdigit (hs.digits c List.mem_cons_self)⟩
    | plus hs => exact ⟨_, _, rfl, by decide⟩
    | minus hs => exact ⟨_, _, rfl, by decide⟩
  obtain ⟨c, s, rfl, hc⟩ := hhead
  rw [List.cons_append, List.dropWhile_cons_of_neg (by simp [hc])]

theorem leadingNumber_of_leads {text : Bytes} {z : Int} (h : Leads text z) :
    leadingNumber text = some z := by
  obtain ⟨front, num, back, rfl, hfront, hnum, hback⟩ := h
  obtain ⟨negative, s, n, hsplit, hs, rfl⟩ := hnum.split back
  rw [leadingNumber, List.dropWhile_append_of_pos hfront, hnum.dropWhile, hsplit]
  simp only
  rw [takeWhile_digits hs.digits hback, if_neg hs.nonempty, decimal_eq_ofDigits, ← hs.value]

/-- A sign is split off, or there is none. -/
theorem numeral_of_split {text s : Bytes} {negative : Bool} (h : splitSign text = (negative, s))
    {digits back : Bytes} {n : Nat} (hs : s = digits ++ back) (hn : Digits digits n) :
    ∃ num, text = num ++ back ∧ Decimal num (signed negative n) := by
  cases text with
  | nil =>
    obtain ⟨rfl, rfl⟩ := Prod.mk.inj h
    exact absurd (List.append_eq_nil_iff.mp hs.symm).1 hn.nonempty
  | cons c text =>
    rw [splitSign] at h
    split_ifs at h with hminus hplus
    · obtain ⟨rfl, rfl⟩ := Prod.mk.inj h
      exact ⟨minus :: digits, by rw [hminus, hs, List.cons_append], .minus hn⟩
    · obtain ⟨rfl, rfl⟩ := Prod.mk.inj h
      exact ⟨plus :: digits, by rw [hplus, hs, List.cons_append], .plus hn⟩
    · obtain ⟨rfl, rfl⟩ := Prod.mk.inj h
      exact ⟨digits, hs, .unsigned hn⟩

theorem leads_of_leadingNumber {text : Bytes} {z : Int} (h : leadingNumber text = some z) :
    Leads text z := by
  obtain ⟨hnonempty, hz⟩ := Option.ite_none_left_eq_some.mp h
  obtain rfl := Option.some.inj hz
  let s := (splitSign (text.dropWhile isspace)).2
  have hdigits : Digits (s.takeWhile isdigit) (decimal (s.takeWhile isdigit)) :=
    ⟨hnonempty, fun c hc => List.mem_takeWhile_imp hc, decimal_eq_ofDigits _⟩
  have hparts : s = s.takeWhile isdigit ++ s.dropWhile isdigit :=
    List.takeWhile_append_dropWhile.symm
  obtain ⟨num, htext, hnum⟩ := numeral_of_split rfl hparts hdigits
  refine ⟨text.takeWhile isspace, num, s.dropWhile isdigit, ?_,
    fun c hc => List.mem_takeWhile_imp hc, hnum, fun c hc => ?_⟩
  · rw [← htext, List.takeWhile_append_dropWhile]
  · have hstop := List.head?_dropWhile_not isdigit s
    rw [hc] at hstop
    simpa using hstop

theorem leadingNumber_iff {text : Bytes} {z : Int} :
    leadingNumber text = some z ↔ Leads text z :=
  ⟨leads_of_leadingNumber, leadingNumber_of_leads⟩

end DericRpc.Numeral
