import DericRpc.Serial

/-! The envelope as a sequence of objects: what each getter answers on a message with any
number of values behind its header, and on one that was cut off, for strings of any length. -/
namespace DericRpc.Envelope
open ByteString Codec Common Serial
variable (P : MsgPack)

/-- A value of one of the types that serialMessageData and readData are used at. -/
structure Value where
  T : Type
  conv : Convert P.Obj T
  value : T

/-- The values appended one after another. -/
def serialValues (values : List (Value P)) (outString : Bytes) : Bytes :=
  values.foldl (fun out v => (serialMessageData P v.conv v.value out).1) outString

variable (msgType : Int32) (msgName : Str32) (msgId : Int32) (values : List (Value P))

/-- serialMessageMeta on a string that held `outString`, and the values behind it. -/
def envelope (outString : Bytes) : Bytes :=
  serialValues P values (serialMessageMeta P msgType msgName msgId outString).1

def objects : List P.Obj :=
  P.int.toObj msgType :: P.string.toObj msgName :: P.int.toObj msgId ::
    values.map fun v => v.conv.toObj v.value

/-- The number of bytes up to the end of object `n`. -/
def objectEnd (n : Nat) : Nat :=
  (P.packAll ((objects P msgType msgName msgId values).take (n+1))).length

theorem serialValues_eq (outString : Bytes) : serialValues P values outString =
    outString ++ P.packAll (values.map fun v => v.conv.toObj v.value) := by
  induction values generalizing outString with
  | nil => simp [serialValues]
  | cons v values ih =>
    rw [List.map_cons, ObjectCodec.packAll_cons, ← List.append_assoc]
    exact ih (outString ++ P.pack (v.conv.toObj v.value))

theorem envelope_eq (outString : Bytes) : envelope P msgType msgName msgId values outString =
    P.packAll (objects P msgType msgName msgId values) := by
  rw [envelope, serialValues_eq]
  simp [serialMessageMeta, objects, List.append_assoc]

/-- The length that unpack is given for a string of `n` bytes. -/
def unpacked (n : Nat) : Nat := unpackLength (toInt n)

/-- An object that ends at byte `e` of a string of `n` bytes keeps its answer on the way of `n`
through int: unpack gets as many bytes as that, or `e` is behind the string anyway, or the answer
does not tell; where it gets more bytes than there are, the object lies among these. -/
def Survives (e n : Nat) (silent : Prop) : Prop :=
  if unpacked n ≤ n then e ≤ n → e ≤ unpacked n ∨ silent else e ≤ n

/-- Each of type, name, id and `v` behind them keeps its answer, or has the getter's error value. -/
def FieldsSurvive (v : Value P) (n : Nat) : Prop :=
  let survives := fun i => Survives (objectEnd P msgType msgName msgId (v :: values) i) n
  survives 0 (msgType = -1) ∧ survives 1 (msgName = emptyStr) ∧ survives 2 (msgId = -1) ∧
    survives 3 (v.value = v.conv.init)

/-- The getters invert the writers, whatever was appended behind the first value. -/
def RoundTrips (v : Value P) (outString trailing : Bytes) : Prop :=
  let data := envelope P msgType msgName msgId (v :: values) outString ++ trailing
  let len := toInt data.length
  getMessageType P data len = some msgType ∧ getMessageName P data len = some msgName ∧
    getMessageId P data len = some msgId ∧ getMessageData P v.conv data len = some v.value

/-- On the first `n` bytes, a getter whose object ends within them answers the field, and any
other its error value. -/
def KnowsCut (v : Value P) (outString : Bytes) (n : Nat) : Prop :=
  let data := (envelope P msgType msgName msgId [v] outString).take n
  let len := toInt data.length
  let inside := fun i => objectEnd P msgType msgName msgId [v] i ≤ n
  getMessageType P data len = some (if inside 0 then msgType else -1) ∧
    getMessageName P data len = some (if inside 1 then msgName else emptyStr) ∧
    getMessageId P data len = some (if inside 2 then msgId else -1) ∧
    getMessageData P v.conv data len = some (if inside 3 then v.value else v.conv.init)

/-- One getter on any string that starts with objects, cut anywhere. -/
theorem getAt_cut {T : Type} {os : List P.Obj} {i : Nat} {conv : Convert P.Obj T} {x : T}
    (hobj : os[i]? = some (conv.toObj x)) (error : T) {trailing : Bytes} {n : Nat}
    (hn : n ≤ (P.packAll os ++ trailing).length) :
    getAt P i conv error ((P.packAll os ++ trailing).take n) (toInt n) =
        some (if (P.packAll (os.take (i+1))).length ≤ n then x else error) ↔
      Survives (P.packAll (os.take (i+1))).length n (x = error) := by
  have hi : i < os.length := (List.getElem?_eq_some_iff.mp hobj).1
  have hlength : ((P.packAll os ++ trailing).take n).length = n := List.length_take_of_le hn
  have has : (some (conv.toObj x)).bind conv.as = some x := conv.as_toObj x
  rw [getAt, unpackAt, hlength, ← unpacked, Survives, List.take_take, P.nth_append_take hi,
    P.nth_append_take hi, hobj]
  by_cases hshort : unpacked n ≤ n
  · rw [if_pos hshort, if_pos hshort, Nat.min_eq_left hshort, Option.map_some]
    by_cases hthere : (P.packAll (os.take (i+1))).length ≤ unpacked n
    · rw [if_pos hthere, if_pos (hthere.trans hshort), has]
      exact iff_of_true rfl fun _ => .inl hthere
    · rw [if_neg hthere]
      by_cases hinside : (P.packAll (os.take (i+1))).length ≤ n
      · rw [if_pos hinside, Option.bind_none, Option.getD_none, Option.some.injEq]
        exact ⟨fun h _ => .inr h.symm, fun h => ((h hinside).resolve_left hthere).symm⟩
      · rw [if_neg hinside]
        exact iff_of_true rfl fun h => absurd h hinside
  · rw [if_neg hshort, if_neg hshort]
    by_cases hinside : (P.packAll (os.take (i+1))).length ≤ n
    · rw [if_pos hinside, if_pos hinside, Option.map_some, Option.map_some, has]
      exact iff_of_true rfl hinside
    · rw [if_neg hinside]
      exact iff_of_false (by simp) hinside

theorem getters_cut (v : Value P) (trailing : Bytes) {n : Nat}
    (hn : n ≤ (P.packAll (objects P msgType msgName msgId (v :: values)) ++ trailing).length) :
    let data := (P.packAll (objects P msgType msgName msgId (v :: values)) ++ trailing).take n
    let inside := fun i => objectEnd P msgType msgName msgId (v :: values) i ≤ n
    (getMessageType P data (toInt n) = some (if inside 0 then msgType else -1) ∧
      getMessageName P data (toInt n) = some (if inside 1 then msgName else emptyStr) ∧
      getMessageId P data (toInt n) = some (if inside 2 then msgId else -1) ∧
      getMessageData P v.conv data (toInt n) = some (if inside 3 then v.value else v.conv.init)) ↔
      FieldsSurvive P msgType msgName msgId values v n :=
  and_congr (getAt_cut P rfl _ hn) (and_congr (getAt_cut P rfl _ hn)
    (and_congr (getAt_cut P rfl _ hn) (getAt_cut P rfl _ hn)))

theorem roundTrips_iff (v : Value P) (outString trailing : Bytes) :
    RoundTrips P msgType msgName msgId values v outString trailing ↔
      FieldsSurvive P msgType msgName msgId values v
        (envelope P msgType msgName msgId (v :: values) outString ++ trailing).length := by
  have hcut := getters_cut P msgType msgName msgId values v trailing le_rfl
  have hinside (i : Nat) : objectEnd P msgType msgName msgId (v :: values) i ≤
      (P.packAll (objects P msgType msgName msgId (v :: values)) ++ trailing).length := by
    have hend := P.packAll_take_length (objects P msgType msgName msgId (v :: values)) (i+1)
    rw [List.length_append]
    exact hend.trans (Nat.le_add_right _ _)
  simp only [List.take_length, hinside, if_true] at hcut
  rw [RoundTrips, envelope_eq]
  exact hcut

theorem knowsCut_iff (v : Value P) (outString : Bytes) {n : Nat}
    (hn : n ≤ (envelope P msgType msgName msgId [v] outString).length) :
    KnowsCut P msgType msgName msgId v outString n ↔
      FieldsSurvive P msgType msgName msgId [] v n := by
  have hcut := getters_cut P msgType msgName msgId [] v [] (n := n)
  rw [envelope_eq] at hn
  rw [List.append_nil] at hcut
  rw [KnowsCut, envelope_eq, List.length_take_of_le hn]
  exact hcut hn

/-- No int and no prefix of it is changed on the way: below 2^31 bytes every field survives. -/
theorem fieldsSurvive_short (v : Value P) {n : Nat} (hn : n < 2 ^ 31) :
    FieldsSurvive P msgType msgName msgId values v n := by
  have hunpacked : unpacked n = n := by rw [unpacked, toInt_of_fits hn, unpackLength_of_fits hn]
  have hone (e : Nat) (silent : Prop) : Survives e n silent := by
    rw [Survives, hunpacked, if_pos le_rfl]
    exact fun hle => .inl hle
  simp only [FieldsSurvive, hone, and_self]

/-- The getters invert the writers on a message, and know the fields of a cut one, exactly where
each field survives the conversions of the string's length. -/
theorem envelope_roundTrip_iff (v : Value P) (outString : Bytes) :
    (∀ (values : List (Value P)) (trailing : Bytes),
      RoundTrips P msgType msgName msgId values v outString trailing ↔
        FieldsSurvive P msgType msgName msgId values v
          (envelope P msgType msgName msgId (v :: values) outString ++ trailing).length) ∧
    ∀ n < (envelope P msgType msgName msgId [v] outString).length,
      KnowsCut P msgType msgName msgId v outString n ↔
        FieldsSurvive P msgType msgName msgId [] v n :=
  ⟨fun values trailing => roundTrips_iff P msgType msgName msgId values v outString trailing,
    fun _ hn => knowsCut_iff P msgType msgName msgId v outString hn.le⟩

def seven : Value standard := ⟨Int32, MessagePack.int, 7⟩

theorem envelope_roundTrip_iff_seven :
    RoundTrips standard 2 emptyStr 1 [seven] seven [1, 2, 3] [4, 5] ∧
      KnowsCut standard 2 emptyStr 1 seven [] 3 := by
  have hround := (envelope_roundTrip_iff standard 2 emptyStr 1 seven [1, 2, 3]).1
  have hcut := (envelope_roundTrip_iff standard 2 emptyStr 1 seven []).2
  exact ⟨(hround [seven] [4, 5]).mpr (fieldsSurvive_short _ _ _ _ _ _ (by decide +kernel)),
    (hcut 3 (by decide +kernel)).mpr (fieldsSurvive_short _ _ _ _ _ _ (by decide))⟩

theorem fillUp {b : Bytes} {n : Nat} (h : b.length ≤ n) : ∃ rest : Bytes, (b ++ rest).length = n :=
  ⟨List.replicate (n - b.length) 0, by rw [List.length_append, List.length_replicate]; omega⟩

theorem not_survives_wrapped {e : Nat} {silent : Prop} (hpos : 0 < e) (hle : e ≤ 2 ^ 32)
    (hsilent : ¬silent) : ¬Survives e (2 ^ 32) silent := by
  have hzero : unpacked (2 ^ 32) = 0 := by decide
  rw [Survives, hzero, if_pos (Nat.zero_le _)]
  intro h
  exact (h hle).elim (not_le.mpr hpos) hsilent

/-- A message of 2^32 bytes has the int length 0, and its type 2 is read as -1. -/
theorem length_wraps :
    ¬ ∀ (msgType msgId : Int32) (msgName : Str32) (v : Value standard)
        (values : List (Value standard)) (outString trailing : Bytes),
      RoundTrips standard msgType msgName msgId values v outString trailing := by
  intro h
  have hfour : (envelope standard 2 emptyStr 1 [seven] []).length = 4 := by decide +kernel
  obtain ⟨trailing, hlen⟩ := fillUp (n := 2 ^ 32) (hfour.trans_le (by decide))
  have hend : 0 < objectEnd standard 2 emptyStr 1 [seven] 0 ∧
      objectEnd standard 2 emptyStr 1 [seven] 0 ≤ 2 ^ 32 := by decide +kernel
  have hfields := (roundTrips_iff standard 2 emptyStr 1 [] seven [] trailing).mp
    (h 2 1 emptyStr seven [] [] trailing)
  rw [hlen] at hfields
  exact not_survives_wrapped hend.1 hend.2 (by decide) hfields.1

end DericRpc.Envelope
