import WarringServer.DBServer.Messages
import WarringServer.Lib.Collection

/-!
# Document — the documents of MongoDB and the updates of `MakeDocHelper`

The fields of a document are those that `makeDocNewAccount` and `makeDocNewCharacter`
write. A filter document is the predicate it stands for, an update document the
function. A filter on `characters.character_name` matches an account if any element of
its array matches; the positional operator `$` is the first of them.

`now` is `std::chrono::system_clock::now()` at the call.
-/

namespace WarringServer.DBServer

open Message Collection

/-- A document of the collection `accounts`. The elements of the array `characters`
have the fields of `CharacterBaseInfo`. -/
structure AccountDocument where
  account : Bytes
  password : Bytes
  characters : List CharacterBaseInfo
  lastLoginTime : Nat
  /-- `none` is the empty string of a new account. -/
  lastLogoutTime : Option Nat
  lastLoginAddress : Bytes
  onOff : Bool
  deriving Repr, DecidableEq

structure BaseInfo where
  name : Bytes
  level : CInt
  gender : Bool
  occuption : CInt
  state : CInt
  deriving Repr, DecidableEq

structure Attribute where
  exp : CInt
  health : CInt
  mana : CInt
  armor : CInt
  stamina : CInt
  strength : CInt
  agility : CInt
  intellect : CInt
  deriving Repr, DecidableEq

structure Location where
  sceneId : CInt
  sceneX : CDouble
  sceneY : CDouble
  sceneZ : CDouble
  deriving Repr, DecidableEq

/-- A document of the collection `characters`. -/
structure CharacterDocument where
  account : Bytes
  baseInfo : BaseInfo
  attributes : Attribute
  location : Location
  deriving Repr, DecidableEq

-- ---------------------------------------------------------------------------
-- The character of a newcomer
-- ---------------------------------------------------------------------------

namespace NewerCharacterInit

/-- Every state has a first scene, with one spot in it: x and y are 2000.0, z is 90.0. -/
def newerSpawnLocation (state _occuption : CInt) : Location :=
  let spawn (sceneId : CInt) : Location :=
    ⟨sceneId, 0x409F400000000000, 0x409F400000000000, 0x4056800000000000⟩
  match state.toInt with
  | 100011 => spawn 200001
  | 100012 => spawn 200101
  | 100013 => spawn 200201
  | 100014 => spawn 200301
  | 100015 => spawn 200401
  | 100016 => spawn 200501
  | 100017 => spawn 200601
  | _ => ⟨-1, 0, 0, 0⟩

def newerAttribute (_state _occuption : CInt) : Attribute where
  exp := 0
  health := 100
  mana := 50
  armor := 10
  stamina := 100
  strength := 10
  agility := 10
  intellect := 10

end NewerCharacterInit

-- ---------------------------------------------------------------------------
-- `MakeDocHelper`
-- ---------------------------------------------------------------------------

namespace MakeDocHelper

/-- The account name is the placeholder of the array: no key of the unique index on
`characters.character_name` may be missing. -/
def makeDocNewAccount (accountName password address : Bytes) (now : Nat) : AccountDocument where
  account := accountName
  password := password
  characters := [⟨accountName, 0, true, 0, 0⟩]
  lastLoginTime := now
  lastLogoutTime := none
  lastLoginAddress := address
  onOff := false

def makeDocAccountAndCharacter (accountName characterName : Bytes) (d : AccountDocument) : Bool :=
  d.account = accountName ∧ ∃ e ∈ d.characters, e.characterName = characterName

/-- `$push` -/
def makeDocAccountInsertNewCharacter (newCharacter : LoginCharacterRequestMessage)
    (d : AccountDocument) : AccountDocument :=
  { d with
    characters := d.characters ++ [{
      characterName := newCharacter.characterName
      characterLevel := 1
      characterGender := newCharacter.characterGender
      characterOccuption := newCharacter.characterOccuption
      characterState := newCharacter.characterState }] }

/-- `$set` at `characters.$`, the element the filter matched by its name. -/
def makeDocAccountUpdateCharacter (characterBaseInfo : CharacterBaseInfo) (matched : Bytes)
    (d : AccountDocument) : AccountDocument :=
  { d with
    characters := updateFirst (fun e => e.characterName = matched)
      (fun e => { e with characterLevel := characterBaseInfo.characterLevel }) d.characters }

def makeDocAccountLogout (now : Nat) (d : AccountDocument) : AccountDocument :=
  { d with lastLogoutTime := some now, onOff := false }

/-- `$pull` -/
def makeDocAccountRemoveCharacter (characterName : Bytes) (d : AccountDocument) :
    AccountDocument :=
  { d with characters := d.characters.filter fun e => e.characterName ≠ characterName }

def makeDocNewCharacter (newCharacter : LoginCharacterRequestMessage) : CharacterDocument where
  account := newCharacter.account
  baseInfo := {
    name := newCharacter.characterName
    level := 1
    gender := newCharacter.characterGender
    occuption := newCharacter.characterOccuption
    state := newCharacter.characterState }
  attributes := NewerCharacterInit.newerAttribute newCharacter.characterState
    newCharacter.characterOccuption
  location := NewerCharacterInit.newerSpawnLocation newCharacter.characterState
    newCharacter.characterOccuption

/-- `$set` of the level, the attributes and the location. Gender, occuption and state are
not among the fields. -/
def makeDocUpdateCharacter (characterInfo : CharacterInfo) (d : CharacterDocument) :
    CharacterDocument :=
  { d with
    baseInfo := { d.baseInfo with level := characterInfo.level }
    attributes := {
      exp := characterInfo.exp
      health := characterInfo.health
      mana := characterInfo.mana
      armor := characterInfo.armor
      stamina := characterInfo.stamina
      strength := characterInfo.strength
      agility := characterInfo.agility
      intellect := characterInfo.intellect }
    location := {
      sceneId := characterInfo.sceneId
      sceneX := characterInfo.sceneX
      sceneY := characterInfo.sceneY
      sceneZ := characterInfo.sceneZ } }

end MakeDocHelper

end WarringServer.DBServer
