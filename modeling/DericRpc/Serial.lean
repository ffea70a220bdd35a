import DericRpc.Lib.MessagePack
import DericRpc.Common

/-! RpcSerialer: a message is its type, name and id, and at most one object of data behind
them. The getters answer with a default where unpacking or converting throws. -/
namespace DericRpc.Serial
open ByteString Codec Common

/-- What the serialer needs of msgpack besides the types of the data. -/
structure MsgPack extends ObjectCodec where
  int : Convert Obj Int32
  string : Convert Obj Str32

/-- The MessagePack format itself. -/
def standard : MsgPack where
  toObjectCodec := MessagePack.codec
  int := MessagePack.int
  string := MessagePack.string

variable (P : MsgPack) {T : Type}

def serialMessageData (conv : Convert P.Obj T) (t : T) (outString : Bytes) : Bytes × Int :=
  (outString ++ P.pack (conv.toObj t), 0)

/-- What the string held before is dropped. -/
def serialMessageMeta (msgType : Int32) (msgName : Str32) (msgId : Int32)
    (_outString : Bytes) : Bytes × Int :=
  (P.pack (P.int.toObj msgType) ++ P.pack (P.string.toObj msgName) ++
    P.pack (P.int.toObj msgId), 0)

/-- The int length of the getters as the size_t that msgpack::unpack gets; none of them looks
at it. -/
def unpackLength (len : Int) : Nat := (len % 2 ^ 64).toNat

/-- Object `n` of the `len` bytes at pData, as unpack called `n+1` times answers it, where
`some none` is an exception. A length beyond the bytes that are there changes nothing for an
object among them; for any other it has unpack run past them, which has no defined result. -/
def unpackAt (n : Nat) (pData : Bytes) (len : Int) : Option (Option P.Obj) :=
  if unpackLength len ≤ pData.length then some (P.nth n (pData.take (unpackLength len)))
  else (P.nth n pData).map some

/-- Object `n` converted, or `error` where unpacking or converting it throws. -/
def getAt (n : Nat) (conv : Convert P.Obj T) (error : T) (pData : Bytes) (len : Int) : Option T :=
  (unpackAt P n pData len).map fun o => (o.bind conv.as).getD error

def getMessageType (pData : Bytes) (len : Int) : Option Int32 := getAt P 0 P.int (-1) pData len

def getMessageName (pData : Bytes) (len : Int) : Option Str32 :=
  getAt P 1 P.string emptyStr pData len

def getMessageId (pData : Bytes) (len : Int) : Option Int32 := getAt P 2 P.int (-1) pData len

def getMessageData (conv : Convert P.Obj T) (pData : Bytes) (len : Int) : Option T :=
  getAt P 3 conv conv.init pData len

/-! What the getters answer on a range of bytes whose length is an int. -/

def readType (data : Bytes) : Int32 := ((P.nth 0 data).bind P.int.as).getD (-1)

def readName (data : Bytes) : Str32 := ((P.nth 1 data).bind P.string.as).getD emptyStr

def readId (data : Bytes) : Int32 := ((P.nth 2 data).bind P.int.as).getD (-1)

/-- The fourth object, when it is there and converts. -/
def messageData (conv : Convert P.Obj T) (data : Bytes) : Option T :=
  (P.nth 3 data).bind conv.as

def readData (conv : Convert P.Obj T) (data : Bytes) : T :=
  (messageData P conv data).getD conv.init

theorem unpackLength_of_fits {n : Nat} (h : n < 2 ^ 31) : unpackLength n = n := by
  unfold unpackLength
  omega

theorem getAt_range {len : Nat} {pData : Bytes} (hlen : len < 2 ^ 31) (h : len ≤ pData.length)
    (n : Nat) (conv : Convert P.Obj T) (error : T) : getAt P n conv error pData len =
      some (((P.nth n (pData.take len)).bind conv.as).getD error) := by
  have hunpack := unpackLength_of_fits hlen
  rw [getAt, unpackAt, hunpack, if_pos h, Option.map_some]

/-- A getter sees the `len` bytes at its pointer and nothing else, as long as `len` is an int. -/
theorem getters_range {len : Nat} {pData : Bytes} (hlen : len < 2 ^ 31) (h : len ≤ pData.length) :
    getMessageType P pData len = some (readType P (pData.take len)) ∧
      getMessageName P pData len = some (readName P (pData.take len)) ∧
      getMessageId P pData len = some (readId P (pData.take len)) ∧
      ∀ (T : Type) (conv : Convert P.Obj T),
        getMessageData P conv pData len = some (readData P conv (pData.take len)) :=
  ⟨getAt_range P hlen h _ _ _, getAt_range P hlen h _ _ _, getAt_range P hlen h _ _ _,
    fun _ _ => getAt_range P hlen h _ _ _⟩

/-- Type, name and id as serialMessageMeta writes them. -/
def header (msgType : MessageType) (msgName : Str32) (msgId : Int32) : Bytes :=
  (serialMessageMeta P msgType.code msgName msgId []).1

/-- A whole message with one object of data. -/
def message (conv : Convert P.Obj T) (msgType : MessageType) (msgName : Str32) (msgId : Int32)
    (t : T) : Bytes :=
  (serialMessageData P conv t (header P msgType msgName msgId)).1

variable (msgType : MessageType) (msgName : Str32) (msgId : Int32)

theorem nth_header (n : Nat) (rest : Bytes) :
    P.nth (n+3) (header P msgType msgName msgId ++ rest) = P.nth n rest := by
  simp [header, serialMessageMeta, List.append_assoc]

@[simp] theorem readType_header (rest : Bytes) :
    readType P (header P msgType msgName msgId ++ rest) = msgType.code := by
  simp [header, serialMessageMeta, readType, P.int.as_toObj, List.append_assoc]

@[simp] theorem readName_header (rest : Bytes) :
    readName P (header P msgType msgName msgId ++ rest) = msgName := by
  simp [header, serialMessageMeta, readName, P.string.as_toObj, List.append_assoc]

@[simp] theorem readId_header (rest : Bytes) :
    readId P (header P msgType msgName msgId ++ rest) = msgId := by
  simp [header, serialMessageMeta, readId, P.int.as_toObj, List.append_assoc]

@[simp] theorem messageData_header (conv : Convert P.Obj T) :
    messageData P conv (header P msgType msgName msgId) = none := by
  have h := nth_header P msgType msgName msgId 0 []
  rw [List.append_nil] at h
  rw [messageData, h, P.nth_nil]
  rfl

theorem message_eq (conv : Convert P.Obj T) (t : T) : message P conv msgType msgName msgId t =
    header P msgType msgName msgId ++ P.pack (conv.toObj t) := rfl

/-- One type's data read as another type: the object decides. -/
theorem messageData_message {R : Type} (conv : Convert P.Obj T) (conv' : Convert P.Obj R)
    (t : T) :
    messageData P conv' (message P conv msgType msgName msgId t) = conv'.as (conv.toObj t) := by
  have hp := P.nth_zero_pack (conv.toObj t) []
  rw [List.append_nil] at hp
  rw [message_eq, messageData, nth_header, hp]
  rfl

theorem readData_message (conv : Convert P.Obj T) (t : T) :
    readData P conv (message P conv msgType msgName msgId t) = t := by
  rw [readData, messageData_message, conv.as_toObj, Option.getD_some]

theorem messageData_cut {o : P.Obj} {data rest : Bytes} (h : data ++ rest = P.pack o)
    (hrest : rest ≠ []) (conv : Convert P.Obj T) :
    messageData P conv (header P msgType msgName msgId ++ data) = none := by
  have hunpack := P.unpack_truncated h hrest
  rw [messageData, nth_header, ObjectCodec.nth, hunpack]
  rfl

theorem header_ne_nil : header P msgType msgName msgId ≠ [] := by
  have h := P.pack_ne_nil (P.int.toObj msgType.code)
  simp [header, serialMessageMeta, h]

end DericRpc.Serial
