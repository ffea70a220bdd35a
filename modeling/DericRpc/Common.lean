import DericRpc.Lib.ByteString

/-! component_public.h and message_public.h, and the C++ integer conversions of the
code: int and uint32_t have 32 bits, size_t and ssize_t 64. -/
namespace DericRpc.Common
open ByteString

inductive ComponentState where
  | created | initialized | started
  deriving DecidableEq

/-- The enumerators in order, for the comparisons m_state < ... and m_state >= ... -/
def ComponentState.rank : ComponentState → Nat
  | .created => 0
  | .initialized => 1
  | .started => 2

inductive MessageType where
  | command | replay | notify | register
  deriving DecidableEq

def MessageType.code : MessageType → Int32
  | .command => 0
  | .replay => 1
  | .notify => 2
  | .register => 3

/-- static_cast<MessageType_e>: an integer outside the enumeration matches no case label. -/
def messageTypeOf (i : Int32) : Option MessageType :=
  if i = 0 then some .command
  else if i = 1 then some .replay
  else if i = 2 then some .notify
  else if i = 3 then some .register
  else none

theorem messageTypeOf_code (t : MessageType) : messageTypeOf t.code = some t := by
  cases t <;> rfl

def intMax : Int := 2 ^ 31 - 1

/-- Conversion of a size_t or ssize_t to int. -/
def toInt (n : Int) : Int := n.bmod (2 ^ 32)

theorem toInt_of_fits {n : Nat} (h : n < 2 ^ 31) : toInt n = n := by
  unfold toInt
  exact Int.bmod_eq_of_le (by omega) (by omega)

theorem toInt_le (n : Nat) : toInt n ≤ n := by
  unfold toInt
  rw [Int.bmod_def]
  omega

theorem toInt_neg {n : Nat} (h1 : 2 ^ 31 ≤ n) (h2 : n < 2 ^ 32) : toInt n < 0 := by
  unfold toInt
  rw [Int.bmod_def]
  omega

def getUint32FromChars (data : Bytes) : UInt32 :=
  (data.getD 0 0).toUInt32 <<< 24 ||| (data.getD 1 0).toUInt32 <<< 16 |||
    (data.getD 2 0).toUInt32 <<< 8 ||| (data.getD 3 0).toUInt32

def setUint32ToChars (num : UInt32) : Bytes :=
  [(num >>> 24).toUInt8, (num >>> 16).toUInt8, (num >>> 8).toUInt8, num.toUInt8]

theorem shiftLeft_or (a b k : Nat) (h : b < 2 ^ k) : a <<< k ||| b = a * 2 ^ k + b := by
  rw [← Nat.shiftLeft_add_eq_or_of_lt h, Nat.shiftLeft_eq]

/-- The shifted bytes do not overlap, so that or-ing them is the big-endian sum. -/
theorem getUint32FromChars_toNat (a b c d : UInt8) (rest : Bytes) :
    (getUint32FromChars (a :: b :: c :: d :: rest)).toNat = beValue [a, b, c, d] := by
  have ha := a.toNat_lt
  have hb := b.toNat_lt
  have hc := c.toNat_lt
  have hd := d.toNat_lt
  have hfit (x : UInt8) (k : Nat) (hk : k ≤ 24) : x.toNat <<< k < 2 ^ 32 := by
    have hx := x.toNat_lt
    have hp : 2 ^ k ≤ 2 ^ 24 := Nat.pow_le_pow_right (by omega) hk
    rw [Nat.shiftLeft_eq]
    calc x.toNat * 2 ^ k ≤ 255 * 2 ^ 24 := Nat.mul_le_mul (by omega) hp
      _ < 2 ^ 32 := by omega
  simp only [getUint32FromChars, List.getD_cons_zero, List.getD_cons_succ, UInt32.toNat_or,
    UInt32.toNat_shiftLeft, UInt8.toNat_toUInt32]
  change (a.toNat <<< 24 % 2 ^ 32 ||| b.toNat <<< 16 % 2 ^ 32 ||| c.toNat <<< 8 % 2 ^ 32 |||
    d.toNat) = _
  rw [Nat.mod_eq_of_lt (hfit a 24 (by omega)), Nat.mod_eq_of_lt (hfit b 16 (by omega)),
    Nat.mod_eq_of_lt (hfit c 8 (by omega)), Nat.or_assoc, Nat.or_assoc,
    shiftLeft_or c.toNat d.toNat 8 (by omega), shiftLeft_or b.toNat _ 16 (by omega),
    shiftLeft_or a.toNat _ 24 (by omega)]
  simp only [beValue, List.foldl_cons, List.foldl_nil]
  omega

theorem setUint32ToChars_eq (n : UInt32) : setUint32ToChars n = beBytes 4 n.toNat := by
  have h24 : (n >>> 24).toUInt8 = UInt8.ofNat (n.toNat / 256 / 256 / 256) := by
    apply UInt8.toNat_inj.mp
    simp [Nat.shiftRight_eq_div_pow]; omega
  have h16 : (n >>> 16).toUInt8 = UInt8.ofNat (n.toNat / 256 / 256) := by
    apply UInt8.toNat_inj.mp
    simp [Nat.shiftRight_eq_div_pow]; omega
  have h8 : (n >>> 8).toUInt8 = UInt8.ofNat (n.toNat / 256) := by
    apply UInt8.toNat_inj.mp
    simp [Nat.shiftRight_eq_div_pow]
  have h0 : n.toUInt8 = UInt8.ofNat n.toNat := by
    apply UInt8.toNat_inj.mp
    simp
  rw [setUint32ToChars, h24, h16, h8, h0]
  rfl

theorem getUint32FromChars_setUint32ToChars (n : UInt32) (rest : Bytes) :
    getUint32FromChars (setUint32ToChars n ++ rest) = n := by
  apply UInt32.toNat_inj.mp
  have hget := getUint32FromChars_toNat (n >>> 24).toUInt8 (n >>> 16).toUInt8
    (n >>> 8).toUInt8 n.toUInt8 rest
  have hset := setUint32ToChars_eq n
  rw [setUint32ToChars] at hset
  rw [hset, beValue_beBytes 4 n.toNat n.toNat_lt] at hget
  exact hget

end DericRpc.Common
