import WarringServer.Net.IOBuffer
import WarringServer.Lib.LittleEndian

/-!
# BaseMessage — counting, serialising and deserialising members

Model of `Base/message/BaseMessage.h` and `BaseMessage.cpp`. A message object is a
`BaseMessage`, with the members its class adds: the list every class passes,
in one order, to `countCapacity`, `pushMembers` and `popMembers`. What the template
overloads select by the static type of a member is the case distinction on `Member`.

`serialize` writes through `memcpy` into `mData`, whose bytes are `none` until they
are written. A write past the allocation is the result `none`. `deserialize` gets
the bytes behind the pointer it is given and faults where the code would read past
them (`DecodeFault`).

`size_t` counters are `Nat`. On the sending side this is exact for a total size
below `2 ^ 64`. On the receiving side no cursor passes the end of the data and no
index the end of the table without a fault.
-/

namespace WarringServer.Message

open LittleEndian

/-- A member of a message class. A scalar of `sizeof` `w` is given by its bits. -/
inductive Member where
  | scalar (w : Nat) (v : BitVec (8 * w))
  | string (s : Bytes)
  | vector (w : Nat) (vs : List (BitVec (8 * w)))
  | strings (ss : List Bytes)
deriving Repr, DecidableEq

/-- `BaseMessage` -/
structure BaseMessage where
  msgName : Bytes
  msgLen : Nat
  mData : List (Option UInt8)
  arrayLikeLenghts : List Nat
  arrayLikeSSize : Nat
  mArrayLikeIndex : Nat
  mCursor : Nat
deriving Repr, DecidableEq

/-- An object of a message class. -/
structure MessageObject extends BaseMessage where
  members : List Member
deriving Repr, DecidableEq

/-- An object as it is before the first `count` or `deserialize`. -/
def MessageObject.fresh (msgName : Bytes) (members : List Member) : MessageObject where
  msgName := msgName
  msgLen := 0
  mData := []
  arrayLikeLenghts := []
  arrayLikeSSize := 0
  mArrayLikeIndex := 0
  mCursor := 0
  members := members

namespace BaseMessage

-- ---------------------------------------------------------------------------
-- Counting
-- ---------------------------------------------------------------------------

def countString (b : BaseMessage) (val : Bytes) : BaseMessage :=
  { b with
    msgLen := b.msgLen + val.length
    arrayLikeLenghts := b.arrayLikeLenghts ++ [val.length]
    arrayLikeSSize := b.arrayLikeSSize + 1 }

def countLength (b : BaseMessage) : Member → BaseMessage
  | .scalar w _ => { b with msgLen := b.msgLen + w }
  | .string val => b.countString val
  | .vector w val =>
    { b with
      msgLen := b.msgLen + w * val.length
      arrayLikeLenghts := b.arrayLikeLenghts ++ [val.length]
      arrayLikeSSize := b.arrayLikeSSize + 1 }
  | .strings strs => strs.foldl countString b

def countCapacity (b : BaseMessage) (args : List Member) : BaseMessage :=
  args.foldl countLength b

def countHelper (b : BaseMessage) : BaseMessage :=
  b.countCapacity
    -- the two counters are counted by their type alone, before their values are known
    [.string b.msgName, .scalar 8 (.ofNat _ b.msgLen), .scalar 8 (.ofNat _ b.arrayLikeSSize)]

-- ---------------------------------------------------------------------------
-- Serialising
-- ---------------------------------------------------------------------------

/-- `memcpy` to offset `pos` of an allocation. -/
def memcpy (dst : List (Option UInt8)) (pos : Nat) (src : Bytes) :
    Option (List (Option UInt8)) :=
  if pos + src.length ≤ dst.length then
    some (dst.take pos ++ src.map some ++ dst.drop (pos + src.length))
  else
    none

def pushBytes (b : BaseMessage) (src : Bytes) : Option BaseMessage := do
  let mData ← memcpy b.mData b.mCursor src
  return { b with mData := mData, mCursor := b.mCursor + src.length }

def pushMember (b : BaseMessage) : Member → Option BaseMessage
  | .scalar w val => b.pushBytes (encode w val.toNat)
  | .string val => b.pushBytes val
  | .vector w val => val.foldlM (fun b m => b.pushBytes (encode w m.toNat)) b
  | .strings strs => strs.foldlM pushBytes b

def pushMembers (b : BaseMessage) (args : List Member) : Option BaseMessage :=
  args.foldlM pushMember b

def serializeHelper (b : BaseMessage) : Option BaseMessage :=
  { b with mCursor := 0, mData := List.replicate b.msgLen none }.pushMembers
    -- the table goes out without a length of its own
    [.scalar 8 (.ofNat _ b.msgLen), .scalar 8 (.ofNat _ b.arrayLikeSSize),
      .vector 8 (b.arrayLikeLenghts.map (.ofNat _)), .string b.msgName]

end BaseMessage

-- ---------------------------------------------------------------------------
-- Deserialising
-- ---------------------------------------------------------------------------

/-- What stops a `deserialize`. -/
inductive DecodeFault where
  /-- A `memcpy` would read past the data. -/
  | readPastEnd
  /-- A `std::string` of `len` bytes is constructed where fewer are left. It reads past the
  data if it gets its storage, and before that it throws if it does not: `std::length_error`
  for a length above `max_size`, `std::bad_alloc` for one that is not to be had. -/
  | stringPastEnd (len : Nat)
  /-- `ARRAY_LIKE_LENGHTS.at` throws `std::out_of_range`. -/
  | lengthOutOfRange
deriving Repr, DecidableEq

/-- The `n` bytes at `data + cursor`. -/
def readBytes (data : Bytes) (cursor n : Nat) : Except DecodeFault Bytes :=
  if cursor + n ≤ data.length then .ok ((data.drop cursor).take n) else .error .readPastEnd

/-- `std::string(data + cursor, len)`. The data is held in memory, and so can a part of it be. -/
def readString (data : Bytes) (cursor len : Nat) : Except DecodeFault Bytes :=
  if cursor + len ≤ data.length then .ok ((data.drop cursor).take len)
  else .error (.stringPastEnd len)

namespace BaseMessage

/-- `ARRAY_LIKE_LENGHTS.at(i)` -/
def lengthAt (b : BaseMessage) (i : Nat) : Except DecodeFault Nat :=
  if h : i < b.arrayLikeLenghts.length then .ok b.arrayLikeLenghts[i]
  else .error .lengthOutOfRange

def popScalar (data : Bytes) (b : BaseMessage) (w : Nat) :
    Except DecodeFault (BitVec (8 * w) × BaseMessage) := do
  let raw ← readBytes data b.mCursor w
  return (.ofNat _ (decode raw), { b with mCursor := b.mCursor + w })

def popString (data : Bytes) (b : BaseMessage) : Except DecodeFault (Bytes × BaseMessage) := do
  let len ← b.lengthAt b.mArrayLikeIndex
  let raw ← readString data b.mCursor len
  return (raw, { b with mArrayLikeIndex := b.mArrayLikeIndex + 1, mCursor := b.mCursor + len })

/-- The `for` loop over the elements of a `std::vector` of scalars. -/
def popScalars (data : Bytes) (w : Nat) : Nat → BaseMessage → List (BitVec (8 * w)) →
    Except DecodeFault (List (BitVec (8 * w)) × BaseMessage)
  | 0, b, val => return (val, b)
  | n + 1, b, val => do
    let (tmp, b) ← b.popScalar data w
    popScalars data w n b (val ++ [tmp])

/-- The `for` loop over the strings of a `std::vector<std::string>`, from table
index `i` on. -/
def popStrings (data : Bytes) : Nat → Nat → BaseMessage → List Bytes →
    Except DecodeFault (List Bytes × BaseMessage)
  | 0, _, b, strs => return (strs, b)
  | n + 1, i, b, strs => do
    let len ← b.lengthAt i
    let raw ← readString data b.mCursor len
    popStrings data n (i + 1) { b with mCursor := b.mCursor + len } (strs ++ [raw])

def popMember (data : Bytes) (b : BaseMessage) : Member →
    Except DecodeFault (Member × BaseMessage)
  | .scalar w _ => do
    let (val, b) ← b.popScalar data w
    return (.scalar w val, b)
  | .string _ => do
    let (val, b) ← b.popString data
    return (.string val, b)
  | .vector w val => do
    let len ← b.lengthAt b.mArrayLikeIndex
    let b := { b with mArrayLikeIndex := b.mArrayLikeIndex + 1 }
    -- `push_back`: elements it held before stay in front
    let (val, b) ← popScalars data w len b val
    return (.vector w val, b)
  | .strings strs => do
    let (strs, b) ←
      -- the rest of the table; the index itself stays behind
      popStrings data (b.arrayLikeSSize - b.mArrayLikeIndex) b.mArrayLikeIndex b strs
    return (.strings strs, b)

def popMembers (data : Bytes) : BaseMessage → List Member →
    Except DecodeFault (List Member × BaseMessage)
  | b, [] => return ([], b)
  | b, arg :: args => do
    let (arg, b) ← b.popMember data arg
    let (args, b) ← popMembers data b args
    return (arg :: args, b)

/-- The loop of `fillArrayLike`. -/
def fillArrayLike (data : Bytes) : Nat → BaseMessage → Except DecodeFault BaseMessage
  | 0, b => return b
  | n + 1, b => do
    let (len, b) ← b.popScalar data 8
    fillArrayLike data n { b with arrayLikeLenghts := b.arrayLikeLenghts ++ [len.toNat] }

def deserializeHelper (data : Bytes) (b : BaseMessage) : Except DecodeFault BaseMessage := do
  let (msgLen, b) ← { b with mCursor := 0 }.popScalar data 8
  let b := { b with msgLen := msgLen.toNat }
  let (arrayLikeSSize, b) ← b.popScalar data 8
  let b := { b with arrayLikeSSize := arrayLikeSSize.toNat }
  -- `push_back` again: the lengths of earlier frames stay in front
  let b ← fillArrayLike data b.arrayLikeSSize b
  let (msgName, b) ← b.popString data
  return { b with msgName := msgName }

end BaseMessage

-- ---------------------------------------------------------------------------
-- The virtual functions
-- ---------------------------------------------------------------------------

/-! Every class overrides them with its own member list. -/

namespace MessageObject

def count (m : MessageObject) : MessageObject :=
  let b := m.countHelper.countCapacity m.members
  ⟨{ b with msgLen := b.msgLen + 8 * b.arrayLikeLenghts.length }, m.members⟩

/-- The string it returns, byte by byte. -/
def serialize (m : MessageObject) : Option (List (Option UInt8) × MessageObject) := do
  let b ← m.serializeHelper
  let b ← b.pushMembers m.members
  return (b.mData.take b.msgLen, ⟨b, m.members⟩)

def deserialize (data : Bytes) (m : MessageObject) : Except DecodeFault MessageObject := do
  let b ← m.deserializeHelper data
  let (members, b) ← b.popMembers data m.members
  return ⟨b, members⟩

end MessageObject

end WarringServer.Message
