import DericRpc.Lib.Codec
import Mathlib.Tactic.Zify

/-! The MessagePack format: nil, booleans, integers, strings and arrays, each written in
its shortest form. Maps, binaries, floats and extensions are read as errors. -/
namespace DericRpc.MessagePack
open ByteString Codec

inductive Raw where
  | nil
  | bool (b : Bool)
  | int (i : Int)
  | str (s : Bytes)
  | array (xs : List Raw)

/-- Tag byte, then `k` big-endian bytes of a number. -/
def sized (tag k n : Nat) : Bytes := UInt8.ofNat tag :: beBytes k n

/-- Two's complement reading of a `k`-byte number. -/
def signed (k n : Nat) : Int := if n < 2 ^ (8*k-1) then n else (n : Int) - 2 ^ (8*k)

def packInt (i : Int) : Bytes :=
  if i < -32 then
    if -2 ^ 7 ≤ i then sized 0xd0 1 (i + 2 ^ 8).toNat
    else if -2 ^ 15 ≤ i then sized 0xd1 2 (i + 2 ^ 16).toNat
    else if -2 ^ 31 ≤ i then sized 0xd2 4 (i + 2 ^ 32).toNat
    else sized 0xd3 8 (i + 2 ^ 64).toNat
  else if i < 0 then sized (i + 256).toNat 0 0
  else if i < 2 ^ 7 then sized i.toNat 0 0
  else if i < 2 ^ 8 then sized 0xcc 1 i.toNat
  else if i < 2 ^ 16 then sized 0xcd 2 i.toNat
  else if i < 2 ^ 32 then sized 0xce 4 i.toNat
  else sized 0xcf 8 i.toNat

def strHeader (n : Nat) : Bytes :=
  if n < 32 then sized (0xa0 + n) 0 0
  else if n < 2 ^ 8 then sized 0xd9 1 n
  else if n < 2 ^ 16 then sized 0xda 2 n
  else sized 0xdb 4 n

def arrayHeader (n : Nat) : Bytes :=
  if n < 16 then sized (0x90 + n) 0 0
  else if n < 2 ^ 16 then sized 0xdc 2 n
  else sized 0xdd 4 n

mutual
def Raw.pack : Raw → Bytes
  | .nil => sized 0xc0 0 0
  | .bool b => sized (if b then 0xc3 else 0xc2) 0 0
  | .int i => packInt i
  | .str s => strHeader s.length ++ s
  | .array xs => arrayHeader xs.length ++ packAll xs
def packAll : List Raw → Bytes
  | [] => []
  | x :: xs => x.pack ++ packAll xs
end

mutual
/-- What the format can represent. -/
def Raw.fits : Raw → Bool
  | .nil | .bool _ => true
  | .int i => decide (-2 ^ 63 ≤ i ∧ i < 2 ^ 64)
  | .str s => decide (s.length < 2 ^ 32)
  | .array xs => decide (xs.length < 2 ^ 32) && fitsAll xs
def fitsAll : List Raw → Bool
  | [] => true
  | x :: xs => x.fits && fitsAll xs
end

def number (k : Nat) : Reader Nat := Reader.map beValue (takeN k)
def strOf (n : Nat) : Reader Raw := Reader.map .str (takeN n)
def arrayOf (p : Reader Raw) (n : Nat) : Reader Raw := Reader.map .array (many p n)
def unsignedOf (k : Nat) : Reader Raw := Reader.map (fun n : Nat => .int n) (number k)
def signedOf (k : Nat) : Reader Raw := Reader.map (fun n => .int (signed k n)) (number k)

/-- The rest of an object whose tag byte has been read; `p` reads an element. -/
def body (p : Reader Raw) (tag : Nat) : Reader Raw :=
  if tag < 0x80 then .done (.int tag)
  else if tag < 0x90 then .fail
  else if tag < 0xa0 then arrayOf p (tag - 0x90)
  else if tag < 0xc0 then strOf (tag - 0xa0)
  else if 0xe0 ≤ tag then .done (.int (tag - 256))
  else match tag with
    | 0xc0 => .done .nil
    | 0xc2 => .done (.bool false)
    | 0xc3 => .done (.bool true)
    | 0xcc => unsignedOf 1
    | 0xcd => unsignedOf 2
    | 0xce => unsignedOf 4
    | 0xcf => unsignedOf 8
    | 0xd0 => signedOf 1
    | 0xd1 => signedOf 2
    | 0xd2 => signedOf 4
    | 0xd3 => signedOf 8
    | 0xd9 => .bind (number 1) strOf
    | 0xda => .bind (number 2) strOf
    | 0xdb => .bind (number 4) strOf
    | 0xdc => .bind (number 2) (arrayOf p)
    | 0xdd => .bind (number 4) (arrayOf p)
    | _ => .fail

/-- Read one object; `fuel` bounds the nesting depth. -/
def parse : Nat → Reader Raw
  | 0, _ => none
  | _+1, [] => none
  | fuel+1, b :: rest => body (parse fuel) b.toNat rest

theorem body_extends {p q : Reader Raw} (h : Extends p q) (tag : Nat) :
    Extends (body p tag) (body q tag) := by
  have hn (k : Nat) : Extends (number k) (number k) := (extends_takeN k).map _
  have hs (n : Nat) : Extends (strOf n) (strOf n) := (extends_takeN n).map _
  have ha (n : Nat) : Extends (arrayOf p n) (arrayOf q n) := (h.many n).map _
  unfold body
  split_ifs
  · exact extends_done _
  · exact extends_fail
  · exact ha _
  · exact hs _
  · exact extends_done _
  · split <;> first
      | exact extends_done _
      | exact extends_fail
      | exact (hn _).map _
      | exact (hn _).bind hs
      | exact (hn _).bind ha

/-- More fuel and more bytes do not change what is read. -/
theorem parse_extends {m n : Nat} (h : m ≤ n) : Extends (parse m) (parse n) := by
  induction m generalizing n with
  | zero => exact fun _ _ _ _ hb => nomatch hb
  | succ m ih =>
    obtain ⟨k, rfl⟩ : ∃ k, n = k+1 := ⟨n-1, by omega⟩
    intro b a rest s hb
    cases b with
    | nil => cases hb
    | cons x xs => exact body_extends (ih (by omega)) x.toNat xs a rest s hb

theorem number_beBytes (k n : Nat) (h : n < 256 ^ k) (rest : Bytes) :
    number k (beBytes k n ++ rest) = some (n, rest) := by
  have ht := takeN_append (beBytes k n) rest
  rw [beBytes_length] at ht
  simp [number, Reader.map, ht, beValue_beBytes k n h]

theorem parse_sized (fuel tag k n : Nat) (h : tag < 256) (rest : Bytes) :
    parse (fuel+1) (sized tag k n ++ rest) = body (parse fuel) tag (beBytes k n ++ rest) := by
  have ht : (UInt8.ofNat tag).toNat = tag := UInt8.toNat_ofNat_of_lt h
  simp [sized, parse, ht]

theorem unsignedOf_beBytes (k n : Nat) (h : n < 256 ^ k) (rest : Bytes) :
    unsignedOf k (beBytes k n ++ rest) = some (.int n, rest) := by
  simp [unsignedOf, Reader.map, number_beBytes k n h]

theorem signedOf_beBytes (k : Nat) (i : Int) (hk : 0 < k) (hneg : i < 0)
    (hlow : -2 ^ (8*k-1) ≤ i) (rest : Bytes) :
    signedOf k (beBytes k (i + 2 ^ (8*k)).toNat ++ rest) = some (.int i, rest) := by
  have hpow : (2:Int) ^ (8*k) = 2 * 2 ^ (8*k-1) := by
    rw [← pow_succ']; congr 1; omega
  have hcast : ((i + 2 ^ (8*k)).toNat : Int) = i + 2 ^ (8*k) := by omega
  have hnat : (256:Int) ^ k = 2 ^ (8*k) := by rw [pow_mul]; norm_num
  have hlt : (i + 2 ^ (8*k)).toNat < 256 ^ k := by
    zify; rw [hcast, hnat]; omega
  have hge : ¬ (i + 2 ^ (8*k)).toNat < 2 ^ (8*k-1) := by
    zify; rw [hcast]; omega
  simp only [signedOf, Reader.map, number_beBytes k _ hlt, Option.map_some, signed, if_neg hge,
    hcast, add_sub_cancel_right]

theorem body_fixint (p : Reader Raw) (n : Nat) (h : n < 0x80) : body p n = .done (.int n) := by
  unfold body
  rw [if_pos h]

theorem body_fixneg (p : Reader Raw) (n : Nat) (h : 0xe0 ≤ n) :
    body p n = .done (.int (n - 256)) := by
  simp only [body, if_neg (show ¬ n < 0x80 by omega), if_neg (show ¬ n < 0x90 by omega),
    if_neg (show ¬ n < 0xa0 by omega), if_neg (show ¬ n < 0xc0 by omega), if_pos h]

theorem body_fixarray (p : Reader Raw) (n : Nat) (h : n < 16) :
    body p (0x90 + n) = arrayOf p n := by
  simp only [body, if_neg (show ¬ 0x90 + n < 0x80 by omega),
    if_neg (show ¬ 0x90 + n < 0x90 by omega), if_pos (show 0x90 + n < 0xa0 by omega),
    Nat.add_sub_cancel_left]

theorem body_fixstr (p : Reader Raw) (n : Nat) (h : n < 32) : body p (0xa0 + n) = strOf n := by
  simp only [body, if_neg (show ¬ 0xa0 + n < 0x80 by omega),
    if_neg (show ¬ 0xa0 + n < 0x90 by omega), if_neg (show ¬ 0xa0 + n < 0xa0 by omega),
    if_pos (show 0xa0 + n < 0xc0 by omega), Nat.add_sub_cancel_left]

theorem parse_packInt (fuel : Nat) (i : Int) (hlow : -2 ^ 63 ≤ i) (hhigh : i < 2 ^ 64)
    (rest : Bytes) : parse (fuel+1) (packInt i ++ rest) = some (.int i, rest) := by
  unfold packInt
  split_ifs with hneg h7 h15 h31 hsmall hfix h8 h16 h32
  · rw [parse_sized _ _ _ _ (by omega)]
    exact signedOf_beBytes 1 i (by omega) (by omega) (by simpa using h7) rest
  · rw [parse_sized _ _ _ _ (by omega)]
    exact signedOf_beBytes 2 i (by omega) (by omega) (by simpa using h15) rest
  · rw [parse_sized _ _ _ _ (by omega)]
    exact signedOf_beBytes 4 i (by omega) (by omega) (by simpa using h31) rest
  · rw [parse_sized _ _ _ _ (by omega)]
    exact signedOf_beBytes 8 i (by omega) (by omega) (by simpa using hlow) rest
  · rw [parse_sized _ _ _ _ (by omega), body_fixneg _ _ (by omega)]
    have hi : ((i + 256).toNat : Int) - 256 = i := by omega
    simp only [Reader.done, beBytes, List.nil_append, hi]
  · rw [parse_sized _ _ _ _ (by omega), body_fixint _ _ (by omega)]
    have hi : (i.toNat : Int) = i := by omega
    simp only [Reader.done, beBytes, List.nil_append, hi]
  all_goals
    have hi : (i.toNat : Int) = i := by omega
    rw [parse_sized _ _ _ _ (by omega)]
  · exact hi ▸ unsignedOf_beBytes 1 i.toNat (by omega) rest
  · exact hi ▸ unsignedOf_beBytes 2 i.toNat (by omega) rest
  · exact hi ▸ unsignedOf_beBytes 4 i.toNat (by omega) rest
  · exact hi ▸ unsignedOf_beBytes 8 i.toNat (by omega) rest

theorem strOf_append (s rest : Bytes) : strOf s.length (s ++ rest) = some (.str s, rest) := by
  simp [strOf, Reader.map, takeN_append]

theorem parse_str (fuel : Nat) (s : Bytes) (h : s.length < 2 ^ 32) (rest : Bytes) :
    parse (fuel+1) (strHeader s.length ++ s ++ rest) = some (.str s, rest) := by
  have hs := strOf_append s rest
  unfold strHeader
  split_ifs with hfix h8 h16
  · rw [List.append_assoc, parse_sized _ _ _ _ (by omega), body_fixstr _ _ hfix]
    simpa [beBytes] using hs
  all_goals
    rw [List.append_assoc, parse_sized _ _ _ _ (by omega)]
  · simpa [body, Reader.bind, number_beBytes 1 _ h8] using hs
  · simpa [body, Reader.bind, number_beBytes 2 _ h16] using hs
  · simpa [body, Reader.bind, number_beBytes 4 _ h] using hs

theorem parse_array (fuel : Nat) (xs : List Raw) (elems rest : Bytes) (h : xs.length < 2 ^ 32)
    (hxs : many (parse fuel) xs.length (elems ++ rest) = some (xs, rest)) :
    parse (fuel+1) (arrayHeader xs.length ++ elems ++ rest) = some (.array xs, rest) := by
  have ha : arrayOf (parse fuel) xs.length (elems ++ rest) = some (.array xs, rest) := by
    simp [arrayOf, Reader.map, hxs]
  unfold arrayHeader
  split_ifs with hfix h16
  · rw [List.append_assoc, parse_sized _ _ _ _ (by omega), body_fixarray _ _ hfix]
    simpa [beBytes] using ha
  all_goals
    rw [List.append_assoc, parse_sized _ _ _ _ (by omega)]
  · simpa [body, Reader.bind, number_beBytes 2 _ h16] using ha
  · simpa [body, Reader.bind, number_beBytes 4 _ h] using ha

theorem packInt_length_pos (i : Int) : 0 < (packInt i).length := by
  unfold packInt
  split_ifs <;> simp [sized]

theorem header_length_pos (n : Nat) :
    0 < (strHeader n).length ∧ 0 < (arrayHeader n).length := by
  unfold strHeader arrayHeader
  constructor <;> split_ifs <;> simp [sized]

theorem pack_length_pos (o : Raw) : 0 < o.pack.length := by
  cases o with
  | nil => simp [Raw.pack, sized]
  | bool b => simp [Raw.pack, sized]
  | int i => simpa [Raw.pack] using packInt_length_pos i
  | str s =>
    have := (header_length_pos s.length).1
    simp [Raw.pack]; omega
  | array xs =>
    have := (header_length_pos xs.length).2
    simp [Raw.pack]; omega

mutual
/-- What was packed is read back; the nesting depth is at most the number of bytes. -/
theorem parse_pack (o : Raw) (h : o.fits = true) (fuel : Nat) (hf : o.pack.length ≤ fuel)
    (rest : Bytes) : parse fuel (o.pack ++ rest) = some (o, rest) := by
  obtain ⟨f, rfl⟩ : ∃ f, fuel = f+1 := ⟨fuel-1, by have := pack_length_pos o; omega⟩
  cases o with
  | nil => rw [Raw.pack, parse_sized _ _ _ _ (by omega)]; rfl
  | bool b => cases b <;> (rw [Raw.pack, parse_sized _ _ _ _ (by decide)]; rfl)
  | int i =>
    obtain ⟨hlow, hhigh⟩ : -2 ^ 63 ≤ i ∧ i < 2 ^ 64 := by simpa [Raw.fits] using h
    exact parse_packInt f i hlow hhigh rest
  | str s => exact parse_str f s (by simpa [Raw.fits] using h) rest
  | array xs =>
    obtain ⟨hlen, hall⟩ : xs.length < 2 ^ 32 ∧ fitsAll xs = true := by
      simpa [Raw.fits] using h
    have hhead := (header_length_pos xs.length).2
    have hsize : (packAll xs).length ≤ f := by
      simp only [Raw.pack, List.length_append] at hf
      omega
    exact parse_array f xs _ rest hlen (many_packAll xs hall f hsize rest)
theorem many_packAll (xs : List Raw) (h : fitsAll xs = true) (fuel : Nat)
    (hf : (packAll xs).length ≤ fuel) (rest : Bytes) :
    many (parse fuel) xs.length (packAll xs ++ rest) = some (xs, rest) := by
  cases xs with
  | nil => rfl
  | cons x xs =>
    obtain ⟨hx, hxs⟩ : x.fits = true ∧ fitsAll xs = true := by simpa [fitsAll] using h
    simp only [packAll, List.length_append] at hf
    have hp := parse_pack x hx fuel (by omega) (packAll xs ++ rest)
    have ht := many_packAll xs hxs fuel (by omega) rest
    simp [packAll, many, List.append_assoc, hp, ht]
end

/-- Objects that the format can represent. -/
abbrev Obj := { o : Raw // o.fits = true }

def unpack : Reader Obj := fun b =>
  (parse b.length b).bind fun (o, rest) => if h : o.fits = true then some (⟨o, h⟩, rest) else none

theorem unpack_extends : Extends unpack unpack := by
  intro b o rest s h
  obtain ⟨⟨a, r⟩, ha, ho⟩ := Option.bind_eq_some_iff.mp h
  have hp := parse_extends (by simp) b a r s ha (n := (b ++ s).length)
  have hfit : a.fits = true := by
    by_contra hne
    simp [hne] at ho
  obtain ⟨rfl, rfl⟩ : ⟨a, hfit⟩ = o ∧ r = rest := by simpa [hfit] using ho
  rw [unpack, hp]
  simp [hfit]

def codec : ObjectCodec where
  Obj := Obj
  pack o := o.1.pack
  unpack := unpack
  unpack_pack o rest := by
    have hp := parse_pack o.1 o.2 (o.1.pack ++ rest).length (by simp) rest
    rw [unpack, hp]
    simp [o.2]
  unpack_extends := unpack_extends
  unpack_nil := rfl

def int : Convert Obj Int32 where
  toObj i := ⟨.int i.toInt, by
    have hl := i.le_toInt
    have hu := i.toInt_lt
    simp only [Raw.fits, decide_eq_true_eq]
    omega⟩
  as o := match o.1 with
    | .int i => if -2 ^ 31 ≤ i ∧ i < 2 ^ 31 then some (Int32.ofInt i) else none
    | _ => none
  as_toObj i := by
    simp only [if_pos (And.intro i.le_toInt i.toInt_lt), Int32.ofInt_toInt]
  init := 0

def string : Convert Obj Str32 where
  toObj s := ⟨.str s.1, by simpa [Raw.fits] using s.2⟩
  as o := match o.1 with
    | .str s => if h : s.length < 2 ^ 32 then some ⟨s, h⟩ else none
    | _ => none
  as_toObj s := by simp only [dif_pos s.2]
  init := emptyStr

/-- The elements of a tuple type, in order. Reading ignores elements past the last one. -/
structure Elems (T : Type) where
  count : Nat
  toObjs : T → List Raw
  as : List Raw → Option T
  length_toObjs : ∀ t, (toObjs t).length = count
  fits_toObjs : ∀ t, fitsAll (toObjs t) = true
  as_toObjs : ∀ t, as (toObjs t) = some t
  init : T

def Elems.nil : Elems Unit where
  count := 0
  toObjs _ := []
  as _ := some ()
  length_toObjs _ := rfl
  fits_toObjs _ := rfl
  as_toObjs _ := rfl
  init := ()

def Elems.cons {T Ts : Type} (c : Convert Obj T) (e : Elems Ts) : Elems (T × Ts) where
  count := e.count + 1
  toObjs t := (c.toObj t.1).1 :: e.toObjs t.2
  as
    | [] => none
    | x :: xs =>
      (if h : x.fits = true then c.as ⟨x, h⟩ else none).bind fun t =>
        (e.as xs).map fun ts => (t, ts)
  length_toObjs t := by simp [e.length_toObjs]
  fits_toObjs t := by simp [fitsAll, e.fits_toObjs, (c.toObj t.1).2]
  as_toObjs t := by simp [(c.toObj t.1).2, c.as_toObj, e.as_toObjs]
  init := (c.init, e.init)

/-- A tuple is an array of its elements. -/
def tuple {T : Type} (e : Elems T) (h : e.count < 2 ^ 32) : Convert Obj T where
  toObj t := ⟨.array (e.toObjs t), by
    simp only [Raw.fits, e.fits_toObjs, e.length_toObjs, decide_eq_true h, Bool.and_self]⟩
  as o := match o.1 with
    | .array xs => e.as xs
    | _ => none
  as_toObj t := e.as_toObjs t
  init := e.init

end DericRpc.MessagePack
