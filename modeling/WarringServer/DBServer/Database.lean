import WarringServer.DBServer.Document

/-!
# Database — the operations of `AccountOp` and `CharacterOp`

The two collections and the operations of `AccountOp.cpp` and `CharacterOp.cpp` that
`QueryTask` uses. The driver does not fail except for duplicate keys. The writes of a
session transaction take effect together or not at all: they are one `Option`
computation. `removeCharacter` hands its writes no session, so they stand on their own.
-/

namespace WarringServer.DBServer

open Message Collection MakeDocHelper

structure Database where
  accounts : List AccountDocument
  characters : List CharacterDocument
  deriving Repr, DecidableEq

/-- `AccountOp::createIndex`: unique on `account` and on `characters.character_name`. -/
def accountIndexes : List (AccountDocument → List Bytes) :=
  [fun d => [d.account], fun d => d.characters.map CharacterBaseInfo.characterName]

/-- `CharacterOp::createIndex`: no unique index. -/
def characterIndexes : List (CharacterDocument → List Bytes) := []

/-- The account and the name of a character. -/
abbrev CharacterPair := Bytes × Bytes

def CharacterDocument.pair (d : CharacterDocument) : CharacterPair := (d.account, d.baseInfo.name)

/-- The filter `account`. -/
def byAccount (accountName : Bytes) (d : AccountDocument) : Bool := d.account = accountName

/-- The filter `account`, `base_info.name`. -/
def byCharacter (p : CharacterPair) (d : CharacterDocument) : Bool := d.pair = p

@[simp] theorem byAccount_iff {accountName : Bytes} {d : AccountDocument} :
    byAccount accountName d = true ↔ d.account = accountName :=
  decide_eq_true_iff

@[simp] theorem byCharacter_iff {p : CharacterPair} {d : CharacterDocument} :
    byCharacter p d = true ↔ d.pair = p :=
  decide_eq_true_iff

@[simp] theorem makeDocAccountAndCharacter_iff {p : CharacterPair} {d : AccountDocument} :
    makeDocAccountAndCharacter p.1 p.2 d = true ↔
      d.account = p.1 ∧ ∃ e ∈ d.characters, e.characterName = p.2 :=
  decide_eq_true_iff

namespace Database

def empty : Database := ⟨[], []⟩

-- ---------------------------------------------------------------------------
-- `AccountOp`
-- ---------------------------------------------------------------------------

def addNewAccount (db : Database) (accountName password address : Bytes) (now : Nat) :
    Database × Int :=
  match insertOne accountIndexes (makeDocNewAccount accountName password address now)
      db.accounts with
  | some accounts => ({ db with accounts := accounts }, 1)
  | none => (db, 0)

/-- The transaction of `addNewCharacter`. -/
def insertNewCharacter (db : Database) (newCharacter : LoginCharacterRequestMessage) :
    Option Database := do
  -- the counts of the result are not looked at
  let (accounts, _) ← updateOne accountIndexes (byAccount newCharacter.account)
    (makeDocAccountInsertNewCharacter newCharacter) db.accounts
  let characters ← insertOne characterIndexes (makeDocNewCharacter newCharacter) db.characters
  return ⟨accounts, characters⟩

def addNewCharacter (db : Database) (newCharacter : LoginCharacterRequestMessage) :
    Database × Int :=
  match db.accounts.find?
      (makeDocAccountAndCharacter newCharacter.account newCharacter.characterName) with
  | some _ => (db, 0)
  | none =>
    match db.insertNewCharacter newCharacter with
    | some db => (db, 1)
    | none => (db, 0)

def removeCharacter (db : Database) (accountName characterName : Bytes) : Database × Int :=
  if accountName = characterName then
    (db, -1)
  else
    match updateOne accountIndexes (byAccount accountName)
        (makeDocAccountRemoveCharacter characterName) db.accounts with
    | none => (db, -1)
    | some (accounts, modified) =>
      if modified = 1 then
        let (characters, deleted) :=
          deleteOne (byCharacter (accountName, characterName)) db.characters
        (⟨accounts, characters⟩, deleted)
      else
        ({ db with accounts := accounts }, 0)

/-- The transaction of `updateCharacter`. -/
def setCharacter (db : Database) (characterInfo : CharacterInfo) (last : Bool) (now : Nat) :
    Option Database := do
  let characterBaseInfo : CharacterBaseInfo := {
    characterName := characterInfo.name
    characterLevel := characterInfo.level
    characterGender := characterInfo.gender
    characterOccuption := characterInfo.occuption
    characterState := characterInfo.state }
  let accounts ←
    if last then
      (·.1) <$> updateOne accountIndexes (byAccount characterInfo.account)
        (makeDocAccountLogout now) db.accounts
    else
      some db.accounts
  let (accounts, _) ← updateOne accountIndexes
    (makeDocAccountAndCharacter characterInfo.account characterInfo.name)
    (makeDocAccountUpdateCharacter characterBaseInfo characterInfo.name) accounts
  let (characters, _) ← updateOne characterIndexes
    (byCharacter (characterInfo.account, characterInfo.name))
    (makeDocUpdateCharacter characterInfo) db.characters
  return ⟨accounts, characters⟩

def updateCharacter (db : Database) (characterInfo : CharacterInfo) (last : Bool) (now : Nat) :
    Database × Int :=
  match db.accounts.find?
      (makeDocAccountAndCharacter characterInfo.account characterInfo.name) with
  | none => (db, 0)
  | some _ =>
    match db.setCharacter characterInfo last now with
    | some db => (db, 1)
    | none => (db, -1)

/-- 0: not match, 1: match, 2: match but already login. `find_one_and_update` returns the
document as it was. -/
def matchAccountAndUpdateLoginState (db : Database) (accountName password : Bytes) (now : Nat) :
    Database × Int :=
  let filter : AccountDocument → Bool := fun d => d.account = accountName ∧ d.password = password
  match db.accounts.find? filter with
  | none => (db, 0)
  | some d =>
    ({ db with
        accounts := updateFirst filter
          (fun d => { d with onOff := true, lastLoginTime := now }) db.accounts },
      if d.onOff then 2 else 1)

/-- `$slice` skips the placeholder, and takes 100 characters at most. -/
def getAllCharacterBaseInfoFill2Message (db : Database) (accountName : Bytes) :
    List CharacterBaseInfo :=
  match db.accounts.find? (byAccount accountName) with
  | some d => (d.characters.drop 1).take 100
  | none => []

-- ---------------------------------------------------------------------------
-- `CharacterOp`
-- ---------------------------------------------------------------------------

/-- `CharacterInfo` filled from a document. -/
def fill2Message (p : CharacterPair) (d : CharacterDocument) : CharacterInfo where
  account := p.1
  name := p.2
  level := d.baseInfo.level
  gender := d.baseInfo.gender
  occuption := d.baseInfo.occuption
  state := d.baseInfo.state
  exp := d.attributes.exp
  health := d.attributes.health
  mana := d.attributes.mana
  armor := d.attributes.armor
  stamina := d.attributes.stamina
  strength := d.attributes.strength
  agility := d.attributes.agility
  intellect := d.attributes.intellect
  sceneId := d.location.sceneId
  sceneX := d.location.sceneX
  sceneY := d.location.sceneY
  sceneZ := d.location.sceneZ

def getOneCharacterInfoFill2Message (db : Database) (accountName characterName : Bytes) :
    Option CharacterInfo :=
  (db.characters.find? (byCharacter (accountName, characterName))).map
    (fill2Message (accountName, characterName))

-- ---------------------------------------------------------------------------
-- Updates of a character
-- ---------------------------------------------------------------------------

theorem names_updateCharacter (characterBaseInfo : CharacterBaseInfo) (matched : Bytes)
    (d : AccountDocument) :
    (makeDocAccountUpdateCharacter characterBaseInfo matched d).characters.map
      CharacterBaseInfo.characterName = d.characters.map CharacterBaseInfo.characterName := by
  refine map_updateFirst ?_ d.characters
  intro e _
  rfl

/-- An update that leaves the account and the names alone adds no key. -/
theorem keys_subset {u : AccountDocument → AccountDocument} {d : AccountDocument}
    (hAccount : (u d).account = d.account)
    (hNames : (u d).characters.map CharacterBaseInfo.characterName =
      d.characters.map CharacterBaseInfo.characterName) :
    ∀ keys ∈ accountIndexes, ∀ k ∈ keys (u d), k ∈ keys d := by
  intro keys hKeys k hk
  rcases List.mem_pair.mp hKeys with rfl | rfl
  · dsimp only at hk ⊢
    rwa [hAccount] at hk
  · dsimp only at hk ⊢
    rwa [hNames] at hk

/-- The accounts after the transaction of `updateCharacter`. -/
def setAccounts (accounts : List AccountDocument) (characterInfo : CharacterInfo) (last : Bool)
    (now : Nat) : List AccountDocument :=
  updateFirst (makeDocAccountAndCharacter characterInfo.account characterInfo.name)
    (makeDocAccountUpdateCharacter ⟨characterInfo.name, characterInfo.level, characterInfo.gender,
      characterInfo.occuption, characterInfo.state⟩ characterInfo.name)
    (if last then
      updateFirst (byAccount characterInfo.account) (makeDocAccountLogout now) accounts
    else
      accounts)

/-- The names of the accounts and of the elements of their arrays. -/
def names (accounts : List AccountDocument) : List (Bytes × List Bytes) :=
  accounts.map fun d => (d.account, d.characters.map CharacterBaseInfo.characterName)

/-- An update of a character changes no name. -/
theorem names_setAccounts (accounts : List AccountDocument) (characterInfo : CharacterInfo)
    (last : Bool) (now : Nat) :
    names (setAccounts accounts characterInfo last now) = names accounts := by
  have hUpdate : ∀ ds, names (updateFirst
      (makeDocAccountAndCharacter characterInfo.account characterInfo.name)
      (makeDocAccountUpdateCharacter ⟨characterInfo.name, characterInfo.level,
        characterInfo.gender, characterInfo.occuption, characterInfo.state⟩ characterInfo.name)
      ds) = names ds := by
    intro ds
    refine map_updateFirst (fun d _ => ?_) ds
    exact Prod.ext rfl (names_updateCharacter _ _ d)
  unfold setAccounts
  rw [hUpdate]
  split
  · refine map_updateFirst ?_ accounts
    intro d _
    rfl
  · rfl

/-- The transaction of `updateCharacter` never aborts: it touches no key. -/
theorem setCharacter_eq (db : Database) (characterInfo : CharacterInfo) (last : Bool) (now : Nat) :
    db.setCharacter characterInfo last now =
      some ⟨setAccounts db.accounts characterInfo last now,
        updateFirst (byCharacter (characterInfo.account, characterInfo.name))
          (makeDocUpdateCharacter characterInfo) db.characters⟩ := by
  obtain ⟨n, hLogout⟩ := updateOne_keeps accountIndexes (byAccount characterInfo.account)
    (fun d => keys_subset (u := makeDocAccountLogout now) (d := d) rfl rfl) db.accounts
  have hUpdate := updateOne_keeps accountIndexes
    (makeDocAccountAndCharacter characterInfo.account characterInfo.name)
    (fun d => keys_subset (d := d) (u := makeDocAccountUpdateCharacter ⟨characterInfo.name,
      characterInfo.level, characterInfo.gender, characterInfo.occuption, characterInfo.state⟩
      characterInfo.name) rfl (names_updateCharacter _ _ d))
  obtain ⟨k, hCharacters⟩ := updateOne_keeps characterIndexes
    (byCharacter (characterInfo.account, characterInfo.name))
    (u := makeDocUpdateCharacter characterInfo) (fun _ _ h => absurd h List.not_mem_nil)
    db.characters
  cases last with
  | true =>
    obtain ⟨m, hAccounts⟩ :=
      hUpdate (updateFirst (byAccount characterInfo.account) (makeDocAccountLogout now) db.accounts)
    simp [setCharacter, setAccounts, hLogout, hAccounts, hCharacters]
  | false =>
    obtain ⟨m, hAccounts⟩ := hUpdate db.accounts
    simp [setCharacter, setAccounts, hAccounts, hCharacters]

/-- An account lists the character, as the guard of `updateCharacter` looks for it. -/
def Lists (db : Database) (p : CharacterPair) : Prop :=
  ∃ d ∈ db.accounts, makeDocAccountAndCharacter p.1 p.2 d = true

instance (db : Database) : DecidablePred db.Lists := fun p =>
  inferInstanceAs (Decidable (∃ d ∈ db.accounts, makeDocAccountAndCharacter p.1 p.2 d = true))

/-- Whether a character is listed is a matter of the names. -/
theorem lists_iff {db : Database} {p : CharacterPair} :
    db.Lists p ↔ ∃ x ∈ names db.accounts, x.1 = p.1 ∧ p.2 ∈ x.2 := by
  constructor
  · rintro ⟨d, hd, hMatch⟩
    obtain ⟨hAccount, e, he, hName⟩ := makeDocAccountAndCharacter_iff.mp hMatch
    exact ⟨_, List.mem_map_of_mem hd, hAccount, List.mem_map.mpr ⟨e, he, hName⟩⟩
  · rintro ⟨x, hx, hAccount, hNames⟩
    obtain ⟨d, hd, rfl⟩ := List.mem_map.mp hx
    obtain ⟨e, he, hName⟩ := List.mem_map.mp hNames
    exact ⟨d, hd, makeDocAccountAndCharacter_iff.mpr ⟨hAccount, e, he, hName⟩⟩

/-- What the operation does: nothing if no account lists the character. -/
theorem updateCharacter_eq (db : Database) (characterInfo : CharacterInfo) (last : Bool)
    (now : Nat) :
    db.updateCharacter characterInfo last now =
      if db.Lists (characterInfo.account, characterInfo.name) then
        (⟨setAccounts db.accounts characterInfo last now,
          updateFirst (byCharacter (characterInfo.account, characterInfo.name))
            (makeDocUpdateCharacter characterInfo) db.characters⟩, 1)
      else
        (db, 0) := by
  unfold updateCharacter
  cases hFound : db.accounts.find?
      (makeDocAccountAndCharacter characterInfo.account characterInfo.name) with
  | none =>
    rw [if_neg]
    rintro ⟨d, hd, hMatch⟩
    rw [none_of_find hFound d hd] at hMatch
    cases hMatch
  | some d =>
    rw [if_pos ⟨d, List.mem_of_find?_eq_some hFound, List.find?_some hFound⟩, setCharacter_eq]

-- ---------------------------------------------------------------------------
-- What an update leaves
-- ---------------------------------------------------------------------------

theorem names_afterUpdate (db : Database) (characterInfo : CharacterInfo) (last : Bool)
    (now : Nat) :
    names (db.updateCharacter characterInfo last now).1.accounts = names db.accounts := by
  rw [updateCharacter_eq]
  split
  · exact names_setAccounts ..
  · rfl

/-- No character appears or disappears. -/
theorem pairs_updateCharacter (db : Database) (characterInfo : CharacterInfo) (last : Bool)
    (now : Nat) :
    (db.updateCharacter characterInfo last now).1.characters.map CharacterDocument.pair =
      db.characters.map CharacterDocument.pair := by
  rw [updateCharacter_eq]
  split
  · refine map_updateFirst ?_ db.characters
    intro d _
    rfl
  · rfl

/-- The character that the update names: gender, occuption and state stay as they were. -/
theorem getOne_updateCharacter {db : Database} {characterInfo : CharacterInfo}
    (hListed : db.Lists (characterInfo.account, characterInfo.name)) (last : Bool) (now : Nat) :
    (db.updateCharacter characterInfo last now).1.getOneCharacterInfoFill2Message
        characterInfo.account characterInfo.name =
      (db.getOneCharacterInfoFill2Message characterInfo.account characterInfo.name).map fun old =>
        { characterInfo with
          gender := old.gender
          occuption := old.occuption
          state := old.state } := by
  have hMatch : ∀ d, byCharacter (characterInfo.account, characterInfo.name) d = true →
      byCharacter (characterInfo.account, characterInfo.name)
        (makeDocUpdateCharacter characterInfo d) = true := fun _ h => h
  rw [updateCharacter_eq, if_pos hListed, getOneCharacterInfoFill2Message,
    find_updateFirst hMatch, getOneCharacterInfoFill2Message, Option.map_map, Option.map_map]
  rfl

/-- Another character. -/
theorem getOne_updateCharacter_of_ne (db : Database) {characterInfo : CharacterInfo}
    {p : CharacterPair} (hNe : p ≠ (characterInfo.account, characterInfo.name)) (last : Bool)
    (now : Nat) :
    (db.updateCharacter characterInfo last now).1.getOneCharacterInfoFill2Message p.1 p.2 =
      db.getOneCharacterInfoFill2Message p.1 p.2 := by
  rw [updateCharacter_eq]
  split
  · have hApart : ∀ d, byCharacter (characterInfo.account, characterInfo.name) d = true →
        byCharacter (p.1, p.2) d = false ∧
          byCharacter (p.1, p.2) (makeDocUpdateCharacter characterInfo d) = false := by
      intro d hd
      have hOther : d.pair ≠ p := byCharacter_iff.mp hd ▸ hNe.symm
      exact ⟨decide_eq_false hOther, decide_eq_false hOther⟩
    rw [getOneCharacterInfoFill2Message, find_updateFirst_of_apart hApart,
      getOneCharacterInfoFill2Message]
  · rfl

/-- The names in a character that is read are those it was asked for by. -/
theorem getOne_names {db : Database} {p : CharacterPair} {info : CharacterInfo}
    (h : db.getOneCharacterInfoFill2Message p.1 p.2 = some info) :
    (info.account, info.name) = p := by
  obtain ⟨d, -, rfl⟩ := Option.map_eq_some_iff.mp h
  rfl

theorem getOne_isSome {db : Database} {p : CharacterPair}
    (h : p ∈ db.characters.map CharacterDocument.pair) :
    ∃ info, db.getOneCharacterInfoFill2Message p.1 p.2 = some info := by
  obtain ⟨d, hd, rfl⟩ := List.mem_map.mp h
  cases hFound : db.characters.find? (byCharacter (d.pair.1, d.pair.2)) with
  | none =>
    have hOther := none_of_find hFound d hd
    rw [byCharacter_iff.mpr rfl] at hOther
    cases hOther
  | some found =>
    exact ⟨fill2Message d.pair found, by rw [getOneCharacterInfoFill2Message, hFound]; rfl⟩

end Database

end WarringServer.DBServer
