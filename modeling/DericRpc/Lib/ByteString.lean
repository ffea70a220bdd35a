import Mathlib.Data.List.Induction
import Mathlib.Tactic.Ring

/-! Byte strings: the vector operations a reused buffer sees, and big-endian numbers. -/
namespace DericRpc.ByteString

abbrev Bytes := List UInt8

/-- Byte strings whose length fits 32 bits. -/
abbrev Str32 := { s : Bytes // s.length < 2 ^ 32 }

def emptyStr : Str32 := ⟨[], by decide⟩

/-- Resize a buffer: keep what fits, fill the rest with zeros. -/
def resize (b : Bytes) (n : Nat) : Bytes :=
  b.take n ++ List.replicate (n - b.length) 0

/-- Write `src` into `b` from offset `off` on. -/
def overwrite (b : Bytes) (off : Nat) (src : Bytes) : Bytes :=
  b.take off ++ src ++ b.drop (off + src.length)

@[simp] theorem resize_length (b : Bytes) (n : Nat) : (resize b n).length = n := by
  simp [resize]; omega

theorem overwrite_all (b src : Bytes) (h : b.length = src.length) : overwrite b 0 src = src := by
  simp [overwrite, h]

theorem take_overwrite (b src : Bytes) : (overwrite b 0 src).take src.length = src := by
  simp [overwrite]

theorem overwrite_length (b src : Bytes) :
    (overwrite b 0 src).length = max b.length src.length := by
  simp [overwrite]; omega

/-- Big-endian bytes of a number, most significant first. -/
def beBytes : Nat → Nat → Bytes
  | 0, _ => []
  | k+1, n => beBytes k (n / 256) ++ [UInt8.ofNat n]

def beValue (b : Bytes) : Nat :=
  b.foldl (fun acc x => acc * 256 + x.toNat) 0

@[simp] theorem beBytes_length (k n : Nat) : (beBytes k n).length = k := by
  induction k generalizing n with
  | zero => rfl
  | succ k ih => simp [beBytes, ih]

theorem beValue_concat (b : Bytes) (x : UInt8) : beValue (b ++ [x]) = beValue b * 256 + x.toNat := by
  simp [beValue]

theorem beValue_beBytes (k n : Nat) (h : n < 256 ^ k) : beValue (beBytes k n) = n := by
  induction k generalizing n with
  | zero =>
    have hn : n = 0 := by simpa using h
    simp [beBytes, beValue, hn]
  | succ k ih =>
    have hq : n / 256 < 256 ^ k := by
      apply Nat.div_lt_of_lt_mul
      rwa [Nat.pow_succ, Nat.mul_comm] at h
    rw [beBytes, beValue_concat, ih _ hq, UInt8.toNat_ofNat']
    omega

theorem beBytes_beValue (b : Bytes) : beBytes b.length (beValue b) = b := by
  induction b using List.reverseRecOn with
  | nil => rfl
  | append_singleton b x ih =>
    have hx := x.toNat_lt
    have hdiv : beValue (b ++ [x]) / 256 = beValue b := by rw [beValue_concat]; omega
    have hbyte : UInt8.ofNat (beValue (b ++ [x])) = x := by
      apply UInt8.toNat_inj.mp
      rw [beValue_concat, UInt8.toNat_ofNat']
      omega
    rw [List.length_append, List.length_singleton, beBytes, hdiv, ih, hbyte]

theorem beValue_lt (b : Bytes) : beValue b < 256 ^ b.length := by
  induction b using List.reverseRecOn with
  | nil => simp [beValue]
  | append_singleton b x ih =>
    have hx := x.toNat_lt
    rw [beValue_concat, List.length_append, List.length_singleton, Nat.pow_succ]
    omega

/-- Split off the first `n` bytes when there are that many. -/
def takeN (n : Nat) (b : Bytes) : Option (Bytes × Bytes) :=
  if n ≤ b.length then some (b.take n, b.drop n) else none

theorem takeN_append (u rest : Bytes) : takeN u.length (u ++ rest) = some (u, rest) := by
  simp [takeN]

theorem takeN_extend {n : Nat} {b u v : Bytes} (h : takeN n b = some (u, v)) (s : Bytes) :
    takeN n (b ++ s) = some (u, v ++ s) := by
  unfold takeN at h
  split at h
  · rename_i hn
    obtain ⟨rfl, rfl⟩ : b.take n = u ∧ b.drop n = v := by simpa using h
    have hs : n ≤ (b ++ s).length := by simp; omega
    rw [takeN, if_pos hs, List.take_append_of_le_length hn, List.drop_append_of_le_length hn]
  · cases h

end DericRpc.ByteString
