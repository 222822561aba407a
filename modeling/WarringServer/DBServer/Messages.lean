import WarringServer.Message.Types

/-!
# The messages of the database server

The message classes that `QueryTask` receives and sends, with their members by name.
Their `deserialize` and `serialize` are those of the codec under the member list of the
class. An `int` and a `double` are given by their bits.
-/

namespace WarringServer.DBServer

open Message

/-- `int` -/
abbrev CInt := BitVec (8 * 4)

/-- `double`, by its representation. -/
abbrev CDouble := BitVec (8 * 8)

-- ---------------------------------------------------------------------------
-- Member lists
-- ---------------------------------------------------------------------------

/-- The members of a fresh object of a class after `deserialize(data)`. -/
def received (kinds : List MemberKind) (data : Bytes) : Except DecodeFault (List Member) := do
  let m ← (MessageObject.fresh MSG_NAME_NONE (kinds.map MemberKind.initial)).deserialize data
  return m.members

/-- What `count()` and `serialize()` make of a fresh object with these members. -/
def packed (msgName : Bytes) (ms : List Member) : Bytes :=
  match (MessageObject.fresh msgName ms).count.serialize with
  | some (data, _) => data.map (·.getD 0)
  | none => []

/-- The `std::string` at a position of the member list. -/
def stringAt (ms : List Member) (i : Nat) : Bytes :=
  match ms[i]? with
  | some (.string s) => s
  | _ => []

/-- The scalar of `w` bytes at a position of the member list. -/
def scalarAt (ms : List Member) (w i : Nat) : BitVec (8 * w) :=
  match ms[i]? with
  | some (.scalar _ v) => v.setWidth _
  | _ => 0

/-- `bool` -/
def boolAt (ms : List Member) (i : Nat) : Bool := scalarAt ms 1 i ≠ 0

/-- The member that a `bool` is. -/
def boolMember (b : Bool) : Member := .scalar 1 (if b then 1 else 0)

-- ---------------------------------------------------------------------------
-- Requests
-- ---------------------------------------------------------------------------

structure LoginRequestMessage where
  requestCode : Nat
  account : Bytes
  password : Bytes
  deriving Repr, DecidableEq

def LoginRequestMessage.deserialize (data : Bytes) : Except DecodeFault LoginRequestMessage := do
  let ms ← received MessageType.loginRequestMessage.kinds data
  return ⟨(scalarAt ms 8 0).toNat, stringAt ms 1, stringAt ms 2⟩

structure LoginCharacterRequestMessage extends LoginRequestMessage where
  characterName : Bytes
  characterGender : Bool
  characterOccuption : CInt
  characterState : CInt
  deriving Repr, DecidableEq

def LoginCharacterRequestMessage.deserialize (data : Bytes) :
    Except DecodeFault LoginCharacterRequestMessage := do
  let ms ← received MessageType.loginCharacterRequestMessage.kinds data
  return {
    requestCode := (scalarAt ms 8 0).toNat
    account := stringAt ms 1
    password := stringAt ms 2
    characterName := stringAt ms 3
    characterGender := boolAt ms 4
    characterOccuption := scalarAt ms 4 5
    characterState := scalarAt ms 4 6 }

structure DSMessage where
  code : Nat
  dsPort : CInt
  sceneId : CInt
  load : CInt
  sceneData : Bytes
  deriving Repr, DecidableEq

def DSMessage.deserialize (data : Bytes) : Except DecodeFault DSMessage := do
  let ms ← received MessageType.dsMessage.kinds data
  return ⟨(scalarAt ms 8 0).toNat, scalarAt ms 4 1, scalarAt ms 4 2, scalarAt ms 4 3,
    stringAt ms 4⟩

/-- Load or upload all info of a character. -/
structure DSLoadOrUploadCharacterMessage where
  code : Nat
  sceneId : CInt
  account : Bytes
  characterName : Bytes
  characterData : Bytes
  deriving Repr, DecidableEq

namespace DSLoadOrUploadCharacterMessage

def members (m : DSLoadOrUploadCharacterMessage) : List Member :=
  [.scalar 8 (.ofNat _ m.code), .scalar 4 m.sceneId, .string m.account, .string m.characterName,
    .string m.characterData]

def deserialize (data : Bytes) : Except DecodeFault DSLoadOrUploadCharacterMessage := do
  let ms ← received MessageType.dsLoadOrUploadCharacterMessage.kinds data
  return ⟨(scalarAt ms 8 0).toNat, scalarAt ms 4 1, stringAt ms 2, stringAt ms 3, stringAt ms 4⟩

end DSLoadOrUploadCharacterMessage

-- ---------------------------------------------------------------------------
-- Responses
-- ---------------------------------------------------------------------------

structure CharacterBaseInfo where
  characterName : Bytes
  characterLevel : CInt
  characterGender : Bool
  characterOccuption : CInt
  characterState : CInt
  deriving Repr, DecidableEq

def CharacterBaseInfo.members (m : CharacterBaseInfo) : List Member :=
  [.string m.characterName, .scalar 4 m.characterLevel, boolMember m.characterGender,
    .scalar 4 m.characterOccuption, .scalar 4 m.characterState]

structure LoginResponseMessage where
  responseCode : Nat
  token : Bytes
  gameGatewayIp : Bytes
  gameGatewayPort : CInt
  gameDsIp : Bytes
  gameDsPort : CInt
  characterBaseInfoMessages : List Bytes
  deriving Repr, DecidableEq

def LoginResponseMessage.members (m : LoginResponseMessage) : List Member :=
  [.scalar 8 (.ofNat _ m.responseCode), .string m.token, .string m.gameGatewayIp,
    .scalar 4 m.gameGatewayPort, .string m.gameDsIp, .scalar 4 m.gameDsPort,
    .strings m.characterBaseInfoMessages]

-- ---------------------------------------------------------------------------
-- The data of a character
-- ---------------------------------------------------------------------------

/-- `CharacterInfo` -/
structure CharacterInfo where
  account : Bytes
  name : Bytes
  level : CInt
  gender : Bool
  occuption : CInt
  state : CInt
  exp : CInt
  health : CInt
  mana : CInt
  armor : CInt
  stamina : CInt
  strength : CInt
  agility : CInt
  intellect : CInt
  sceneId : CInt
  sceneX : CDouble
  sceneY : CDouble
  sceneZ : CDouble
  deriving Repr, DecidableEq

namespace CharacterInfo

def kinds : List MemberKind :=
  [.string, .string, .scalar 4, .scalar 1, .scalar 4, .scalar 4,
    .scalar 4, .scalar 4, .scalar 4, .scalar 4, .scalar 4, .scalar 4, .scalar 4, .scalar 4,
    .scalar 4, .scalar 8, .scalar 8, .scalar 8]

def members (m : CharacterInfo) : List Member :=
  [.string m.account, .string m.name, .scalar 4 m.level, boolMember m.gender,
    .scalar 4 m.occuption, .scalar 4 m.state,
    .scalar 4 m.exp, .scalar 4 m.health, .scalar 4 m.mana, .scalar 4 m.armor,
    .scalar 4 m.stamina, .scalar 4 m.strength, .scalar 4 m.agility, .scalar 4 m.intellect,
    .scalar 4 m.sceneId, .scalar 8 m.sceneX, .scalar 8 m.sceneY, .scalar 8 m.sceneZ]

def ofMembers (ms : List Member) : CharacterInfo where
  account := stringAt ms 0
  name := stringAt ms 1
  level := scalarAt ms 4 2
  gender := boolAt ms 3
  occuption := scalarAt ms 4 4
  state := scalarAt ms 4 5
  exp := scalarAt ms 4 6
  health := scalarAt ms 4 7
  mana := scalarAt ms 4 8
  armor := scalarAt ms 4 9
  stamina := scalarAt ms 4 10
  strength := scalarAt ms 4 11
  agility := scalarAt ms 4 12
  intellect := scalarAt ms 4 13
  sceneId := scalarAt ms 4 14
  sceneX := scalarAt ms 8 15
  sceneY := scalarAt ms 8 16
  sceneZ := scalarAt ms 8 17

def deserialize (data : Bytes) : Except DecodeFault CharacterInfo := do
  let ms ← received kinds data
  return ofMembers ms

/-- `count()` and `serialize()` -/
def serialize (m : CharacterInfo) : Bytes := packed MSG_NAME_NONE m.members

-- ---------------------------------------------------------------------------
-- Round trip
-- ---------------------------------------------------------------------------

theorem ofMembers_members (m : CharacterInfo) : ofMembers m.members = m := by
  have hGender : boolAt m.members 3 = m.gender := by
    cases hGender : m.gender <;> simp [boolAt, scalarAt, members, boolMember, hGender]
  cases m
  simp_all [ofMembers, members, stringAt, scalarAt]

theorem members_kinds (m : CharacterInfo) : m.members.map Member.kind = kinds := rfl

end CharacterInfo

/-- The codec as a schema of scalars and strings. -/
def plainSchema (kinds : List MemberKind) (hPlain : ∀ k ∈ kinds, k.Plain) : Schema where
  kinds := kinds
  vector_width_pos := fun w hw => absurd (hPlain _ hw) id
  strings_last := by
    rintro k hk rfl
    exact absurd (hPlain _ (List.dropLast_subset _ hk)) id

section

variable {kinds : List MemberKind} {ms : List Member} {msgName : Bytes}

theorem packed_eq_wire (hPlain : ∀ k ∈ kinds, k.Plain) (hKinds : ms.map Member.kind = kinds)
    (hSize : wireLength msgName ms < 2 ^ 64) : packed msgName ms = wire msgName ms := by
  have hSend := MessageObject.serialize_fresh hSize
    ((plainSchema kinds hPlain).lengths_lt hKinds hSize)
  rw [packed, hSend]
  simp

/-- A fresh object reads the members back that were sent to it. -/
theorem received_packed (hPlain : ∀ k ∈ kinds, k.Plain) (hKinds : ms.map Member.kind = kinds)
    (hSize : wireLength msgName ms < 2 ^ 64) : received kinds (packed msgName ms) = .ok ms := by
  have hInitial : (kinds.map MemberKind.initial).map Member.kind = kinds := by
    rw [List.map_map]
    conv_rhs => rw [← List.map_id kinds]
    exact List.map_congr_left fun k _ => k.initial_kind
  have hBlank : ∀ a ∈ kinds.map MemberKind.initial, a.Blank := by
    intro a ha
    obtain ⟨k, hk, rfl⟩ := List.mem_map.mp ha
    exact Member.blank_of_plain (k.initial_kind.symm ▸ hPlain k hk)
  obtain ⟨m, hReceive, -, hMembers, -⟩ := MessageObject.deserialize_wire
    (plainSchema kinds hPlain) hKinds hInitial hBlank MSG_NAME_NONE hSize
  rw [packed_eq_wire hPlain hKinds hSize, received, hReceive]
  exact congrArg Except.ok hMembers

/-- **Round trip** of a request for a character. -/
theorem DSLoadOrUploadCharacterMessage.deserialize_packed (msgName : Bytes)
    (m : DSLoadOrUploadCharacterMessage) (hCode : m.code < 2 ^ 64)
    (hSize : wireLength msgName m.members < 2 ^ 64) :
    deserialize (packed msgName m.members) = .ok m := by
  have hPlain := MessageType.dsLoadOrUploadCharacterMessage.kinds_plain
  have hReceived : received MessageType.dsLoadOrUploadCharacterMessage.kinds
      (packed msgName m.members) = .ok m.members := received_packed hPlain rfl hSize
  rw [deserialize, hReceived]
  cases m
  simpa [Except.bind, bind, pure, Except.pure, stringAt, scalarAt, members] using
    MessageObject.ofNat_toNat_of_lt hCode

end

namespace CharacterInfo

/-- Table and scalars of a `CharacterInfo` take 126 bytes of a frame. -/
theorem wireLength_members (m : CharacterInfo) :
    wireLength MSG_NAME_NONE m.members = m.account.length + m.name.length + 126 := by
  have hName : MSG_NAME_NONE.length = 13 := by decide
  simp only [wireLength, tableOf, members, image_cons, image_nil, lengths_cons, lengths_nil,
    Member.image, Member.lengths, boolMember, LittleEndian.encode_length, List.length_append,
    List.length_cons, List.length_nil, hName]
  omega

/-- **Round trip.** The data of a character is read back from its serialised form. -/
theorem deserialize_serialize (m : CharacterInfo)
    (hSize : m.account.length + m.name.length + 126 < 2 ^ 64) :
    deserialize m.serialize = .ok m := by
  have hPlain : ∀ k ∈ kinds, k.Plain := by decide
  have hReceived : received kinds m.serialize = .ok m.members :=
    received_packed hPlain m.members_kinds (by rw [wireLength_members]; exact hSize)
  rw [deserialize, hReceived]
  exact congrArg Except.ok m.ofMembers_members

theorem serialize_ne_nil (m : CharacterInfo)
    (hSize : m.account.length + m.name.length + 126 < 2 ^ 64) : m.serialize ≠ [] := by
  have hPlain : ∀ k ∈ kinds, k.Plain := by decide
  intro hNil
  have hLength := congrArg List.length hNil
  rw [serialize, packed_eq_wire hPlain m.members_kinds (by rw [wireLength_members]; exact hSize),
    wire_length, wireLength_members, List.length_nil] at hLength
  omega

end CharacterInfo

end WarringServer.DBServer
