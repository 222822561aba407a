import WarringServer.DBServer.Store
import WarringServer.Lib.Run

/-!
# LoadPaths — a character loaded from the cache and from the database

A load is answered with the data of the last upload while the entry of the character is
cached, and with the serialised document after the entry has expired. An upload writes
both: its data into the cache, under the ACCOUNT and the CHARACTER_NAME of the request,
and what it reads from the data into the database, under the ACCOUNT and the NAME that
stand in the data. The document keeps its gender, occuption and state.

* `LoadsAgree` — a load of a stored character would be answered the same without its
  cache entry;
* `Consistent` — the uploads that keep this so: the data names the character it is
  uploaded for, with the gender, occuption and state it has, and no other character
  has its key.
-/

namespace WarringServer.DBServer

open Message Collection Run

namespace Store

-- ---------------------------------------------------------------------------
-- The two paths
-- ---------------------------------------------------------------------------

/-- What an answer to a load says about the character. -/
structure Answer where
  code : Nat
  account : Bytes
  characterName : Bytes
  character : Except DecodeFault CharacterInfo

def loaded (d : Drivers Store) (s : Store) (p : CharacterPair) : Except Fault Answer :=
  ((loadCharacter d p.1 p.2).exec s).1.map fun m =>
    ⟨m.code, m.account, m.characterName, CharacterInfo.deserialize m.characterData⟩

/-- The entry of a key has expired. -/
def evict (s : Store) (key : Bytes) : Store :=
  { s with cache := Function.update s.cache key none }

/-- The character exists in the database: its account lists it and it has a document. -/
def Stored (s : Store) (p : CharacterPair) : Prop :=
  s.db.Lists p ∧ p ∈ s.db.characters.map CharacterDocument.pair

instance (s : Store) : DecidablePred s.Stored := fun _ => inferInstanceAs (Decidable (_ ∧ _))

/-- No document of MongoDB is larger than 16 MiB. -/
def Sized (s : Store) : Prop :=
  ∀ p ∈ s.db.characters.map CharacterDocument.pair, p.1.length + p.2.length < 2 ^ 24

/-- **The two load paths agree.** -/
def LoadsAgree (d : Drivers Store) (s : Store) : Prop :=
  ∀ p, s.Stored p → loaded d s p = loaded d (s.evict (keyOf p)) p

-- ---------------------------------------------------------------------------
-- Uploads
-- ---------------------------------------------------------------------------

/-- An upload with the data of a character. -/
structure Upload where
  last : Bool
  pair : CharacterPair
  data : Bytes
  info : CharacterInfo
  decodes : CharacterInfo.deserialize data = .ok info

inductive Event where
  | upload (u : Upload)
  | elapse (milliseconds : Nat)

def Event.request : Event → Request
  | .upload u => .upload u.last u.pair u.data
  | .elapse milliseconds => .elapse milliseconds

def step (d : Drivers Store) (s : Store) (e : Event) : Store := s.handle d e.request

/-- The data of an upload and the stored character it is for. -/
structure Fitting (s : Store) (u : Upload) : Prop where
  named : (u.info.account, u.info.name) = u.pair
  alone : ∀ q, s.Stored q → keyOf q = keyOf u.pair → q = u.pair
  kept : ∀ stored, s.db.getOneCharacterInfoFill2Message u.pair.1 u.pair.2 = some stored →
    u.info.gender = stored.gender ∧ u.info.occuption = stored.occuption ∧
      u.info.state = stored.state

def Consistent (s : Store) : Event → Prop
  | .upload u => s.Fitting u
  | .elapse _ => True

section

variable (text : CDouble → Bytes) (junk : CInt) {s : Store} {p q : CharacterPair} {data : Bytes}

-- ---------------------------------------------------------------------------
-- Cached and stored data
-- ---------------------------------------------------------------------------

theorem cachedData_evict (s : Store) (p : CharacterPair) :
    (s.evict (keyOf p)).cachedData p = none := by
  have hGet : (s.evict (keyOf p)).hget (keyOf p) (literal "character_data") = none := by
    simp [hget, live, evict]
  cases hCached : (s.evict (keyOf p)).cachedData p with
  | none => rfl
  | some data =>
    rw [(cachedData_eq_some.mp hCached).1] at hGet
    cases hGet

theorem Stored.getOne (h : s.Stored p) :
    ∃ info, s.db.getOneCharacterInfoFill2Message p.1 p.2 = some info :=
  Database.getOne_isSome h.2

/-- From the cache. -/
theorem loaded_cached (h : s.cachedData p = some data) :
    loaded (drivers text junk) s p =
      .ok ⟨code.game.GAME_LOAD_CHARACTER_SUCCESS, p.1, p.2, CharacterInfo.deserialize data⟩ := by
  rw [loaded, load_cached text junk h]
  rfl

/-- From the database: the document comes back from its serialised form. -/
theorem loaded_stored {info : CharacterInfo} (hSized : s.Sized) (hStored : s.Stored p)
    (hInfo : s.db.getOneCharacterInfoFill2Message p.1 p.2 = some info)
    (h : s.cachedData p = none) :
    loaded (drivers text junk) s p =
      .ok ⟨code.game.GAME_LOAD_CHARACTER_SUCCESS, p.1, p.2, .ok info⟩ := by
  have hNames : (info.account, info.name) = p := Database.getOne_names hInfo
  have hLength : info.account.length + info.name.length < 2 ^ 24 := by
    rw [← hNames] at hStored
    exact hSized _ hStored.2
  have hData := info.deserialize_serialize (by omega)
  rw [loaded, load_stored text junk h, hInfo]
  simp only [Except.map, hData]

/-- The paths agree if each stored character with cached data is the one that is cached. -/
theorem loadsAgree_iff (hSized : s.Sized) :
    LoadsAgree (drivers text junk) s ↔
      ∀ p data, s.Stored p → s.cachedData p = some data →
        ∃ info, CharacterInfo.deserialize data = .ok info ∧
          s.db.getOneCharacterInfoFill2Message p.1 p.2 = some info := by
  constructor
  · intro h p data hStored hCached
    obtain ⟨info, hInfo⟩ := hStored.getOne
    have hEvicted := loaded_stored text junk (s := s.evict (keyOf p)) hSized hStored hInfo
      (cachedData_evict s p)
    have hSame := (loaded_cached text junk hCached).symm.trans ((h p hStored).trans hEvicted)
    simp only [Except.ok.injEq, Answer.mk.injEq, true_and] at hSame
    exact ⟨info, hSame, hInfo⟩
  · intro h p hStored
    obtain ⟨info, hInfo⟩ := hStored.getOne
    have hEvicted := loaded_stored text junk (s := s.evict (keyOf p)) hSized hStored hInfo
      (cachedData_evict s p)
    rw [hEvicted]
    cases hCached : s.cachedData p with
    | none => exact loaded_stored text junk hSized hStored hInfo hCached
    | some data =>
      obtain ⟨cached, hDecode, hGet⟩ := h p data hStored hCached
      obtain rfl : info = cached := Option.some.inj (hInfo.symm.trans hGet)
      rw [loaded_cached text junk hCached, hDecode]

/-- With nothing cached there is one path. -/
theorem loadsAgree_cold (hSized : s.Sized) (hCold : ∀ p, s.cachedData p = none) :
    LoadsAgree (drivers text junk) s := by
  refine (loadsAgree_iff text junk hSized).mpr ?_
  intro p data _ hCached
  rw [hCold] at hCached
  cases hCached

-- ---------------------------------------------------------------------------
-- What an event keeps
-- ---------------------------------------------------------------------------

theorem upload_db (s : Store) (u : Upload) :
    (s.step (drivers text junk) (.upload u)).db =
      (s.db.updateCharacter u.info u.last s.now).1 := by
  rw [step, Event.request, handle_upload, u.decodes]
  dsimp only
  rw [cacheUpload_now, cacheUpload_db]

theorem elapse_db (s : Store) (milliseconds : Nat) :
    (s.step (drivers text junk) (.elapse milliseconds)).db = s.db := rfl

/-- No event makes or removes a character. -/
theorem step_pairs (s : Store) (e : Event) :
    (s.step (drivers text junk) e).db.characters.map CharacterDocument.pair =
      s.db.characters.map CharacterDocument.pair := by
  cases e with
  | upload u => rw [upload_db, Database.pairs_updateCharacter]
  | elapse milliseconds => rw [elapse_db]

theorem step_stored (s : Store) (e : Event) (p : CharacterPair) :
    (s.step (drivers text junk) e).Stored p ↔ s.Stored p := by
  have hNames : Database.names (s.step (drivers text junk) e).db.accounts =
      Database.names s.db.accounts := by
    cases e with
    | upload u => rw [upload_db, Database.names_afterUpdate]
    | elapse milliseconds => rw [elapse_db]
  rw [Stored, Stored, Database.lists_iff, Database.lists_iff, hNames, step_pairs]

theorem step_sized (hSized : s.Sized) (e : Event) : (s.step (drivers text junk) e).Sized := by
  rw [Sized, step_pairs]
  exact hSized

theorem Upload.data_ne_nil (u : Upload) : u.data ≠ [] := by
  intro hNil
  have hDecodes := u.decodes
  rw [hNil] at hDecodes
  cases hDecodes

-- ---------------------------------------------------------------------------
-- One event
-- ---------------------------------------------------------------------------

/-- Time may take an entry away, and adds none. -/
theorem loadsAgree_elapse (hSized : s.Sized) (h : LoadsAgree (drivers text junk) s)
    (milliseconds : Nat) :
    LoadsAgree (drivers text junk) (s.step (drivers text junk) (.elapse milliseconds)) := by
  refine (loadsAgree_iff text junk (step_sized text junk hSized _)).mpr ?_
  intro p data hStored hCached
  rw [step_stored] at hStored
  exact (loadsAgree_iff text junk hSized).mp h p data hStored (cachedData_elapse text junk hCached)

/-- A fitting upload is what is stored after it. -/
theorem Fitting.getOne {u : Upload} (hFit : s.Fitting u) (hStored : s.Stored u.pair) :
    (s.step (drivers text junk) (.upload u)).db.getOneCharacterInfoFill2Message
      u.pair.1 u.pair.2 = some u.info := by
  obtain ⟨old, hOld⟩ := hStored.getOne
  obtain ⟨hGender, hOccuption, hState⟩ := hFit.kept old hOld
  have hListed : s.db.Lists (u.info.account, u.info.name) := hFit.named.symm ▸ hStored.1
  rw [← hFit.named] at hOld ⊢
  rw [upload_db, Database.getOne_updateCharacter hListed, hOld, Option.map_some, ← hGender,
    ← hOccuption, ← hState]

/-- An upload keeps the two paths together exactly if it fits. -/
theorem loadsAgree_upload_iff {u : Upload} (hSized : s.Sized) (hStored : s.Stored u.pair)
    (h : LoadsAgree (drivers text junk) s) :
    LoadsAgree (drivers text junk) (s.step (drivers text junk) (.upload u)) ↔ s.Fitting u := by
  have hCached : ∀ q, keyOf q = keyOf u.pair →
      (s.step (drivers text junk) (.upload u)).cachedData q = some u.data :=
    fun q => cachedData_upload text junk u.last u.data_ne_nil
  rw [loadsAgree_iff text junk (step_sized text junk hSized _)]
  constructor
  · intro hAgree
    -- all that have the key get the data of the upload from the cache
    have hGet : ∀ q, s.Stored q → keyOf q = keyOf u.pair →
        (s.step (drivers text junk) (.upload u)).db.getOneCharacterInfoFill2Message q.1 q.2 =
          some u.info := by
      intro q hq hKey
      obtain ⟨info, hDecode, hInfo⟩ := hAgree q u.data ((step_stored ..).mpr hq) (hCached q hKey)
      obtain rfl : u.info = info := Except.ok.inj (u.decodes.symm.trans hDecode)
      exact hInfo
    have hNamed : (u.info.account, u.info.name) = u.pair :=
      Database.getOne_names (hGet u.pair hStored rfl)
    refine ⟨hNamed, ?_, ?_⟩
    · intro q hq hKey
      rw [← hNamed, Database.getOne_names (hGet q hq hKey)]
    · intro stored hOld
      have hListed : s.db.Lists (u.info.account, u.info.name) := hNamed.symm ▸ hStored.1
      have hNew := hGet u.pair hStored rfl
      rw [← hNamed] at hOld hNew
      rw [upload_db, Database.getOne_updateCharacter hListed, hOld] at hNew
      have hSame := (Option.some.inj hNew).symm
      exact ⟨by rw [hSame], by rw [hSame], by rw [hSame]⟩
  · intro hFit q data hq hData
    rw [step_stored] at hq
    by_cases hKey : keyOf q = keyOf u.pair
    · obtain rfl : q = u.pair := hFit.alone q hq hKey
      obtain rfl : u.data = data := Option.some.inj ((hCached _ hKey).symm.trans hData)
      exact ⟨u.info, u.decodes, hFit.getOne text junk hStored⟩
    · -- the entry and the document of another key are not written
      have hBefore : s.cachedData q = some data :=
        (cachedData_upload_of_ne text junk u.last hKey).symm.trans hData
      have hNe : q ≠ (u.info.account, u.info.name) := by
        rw [hFit.named]
        rintro rfl
        exact hKey rfl
      rw [upload_db, Database.getOne_updateCharacter_of_ne s.db hNe]
      exact (loadsAgree_iff text junk hSized).mp h q data hq hBefore

/--
**The load paths agree.** From any state in which they agree, for uploads of stored
characters in any order, with any time between them: a load gives the same character from
the cache and from the database after every event if and only if every upload fits.
-/
theorem load_paths_agree_iff {es : List Event} (hSized : s.Sized)
    (hStored : ∀ u, .upload u ∈ es → s.Stored u.pair)
    (hStart : LoadsAgree (drivers text junk) s) :
    Always (step (drivers text junk)) (LoadsAgree (drivers text junk)) s es ↔
      Each (step (drivers text junk)) Consistent s es := by
  refine always_iff_each
    (fun s es => s.Sized ∧ ∀ u, Event.upload u ∈ es → s.Stored u.pair) ?_ ?_ hStart
    ⟨hSized, hStored⟩
  · rintro s e es ⟨hSized, hStored⟩ - -
    refine ⟨step_sized text junk hSized e, fun u hu => ?_⟩
    exact (step_stored ..).mpr (hStored u (List.mem_cons_of_mem _ hu))
  · rintro s e es ⟨hSized, hStored⟩ hAgree
    cases e with
    | upload u =>
      exact loadsAgree_upload_iff text junk hSized (hStored u List.mem_cons_self) hAgree
    | elapse milliseconds =>
      exact iff_of_true (loadsAgree_elapse text junk hSized hAgree milliseconds) trivial

end

-- ---------------------------------------------------------------------------
-- Account `a` with the characters `b` and `c`
-- ---------------------------------------------------------------------------

/-- The request for a new character of account `a`. -/
def newCharacter (characterName : Bytes) : LoginCharacterRequestMessage where
  requestCode := code.login.LOGIN_CREATE_CHARACTER_CODE
  account := literal "a"
  password := []
  characterName := characterName
  characterGender := true
  characterOccuption := 100112
  characterState := 100011

def twoCharacters : Store :=
  { empty with
    db :=
      let db := (Database.empty.addNewAccount (literal "a") (literal "pw") [] 0).1
      let db := (db.addNewCharacter (newCharacter (literal "b"))).1
      (db.addNewCharacter (newCharacter (literal "c"))).1 }

/-- A character after its first level. -/
def raised (name : Bytes) : CharacterInfo where
  account := literal "a"
  name := name
  level := 2
  gender := true
  occuption := 100112
  state := 100011
  exp := 7
  health := 100
  mana := 50
  armor := 10
  stamina := 100
  strength := 10
  agility := 10
  intellect := 10
  sceneId := 200001
  sceneX := 0
  sceneY := 0
  sceneZ := 0

/-- An upload for `b`, with the data of a character of `a`. -/
def uploadForB (name : Bytes) (hName : name.length < 2 ^ 32) : Upload where
  last := false
  pair := (literal "a", literal "b")
  data := (raised name).serialize
  info := raised name
  decodes := by
    refine (raised name).deserialize_serialize ?_
    have hAccount : (raised name).account.length = 1 := rfl
    have hLength : (raised name).name.length = name.length := rfl
    omega

theorem twoCharacters_pairs : twoCharacters.db.characters.map CharacterDocument.pair =
    [(literal "a", literal "b"), (literal "a", literal "c")] := by
  decide

theorem twoCharacters_sized : twoCharacters.Sized := by
  rw [Sized, twoCharacters_pairs]
  decide

theorem twoCharacters_agree (text : CDouble → Bytes) (junk : CInt) :
    LoadsAgree (drivers text junk) twoCharacters :=
  loadsAgree_cold text junk twoCharacters_sized fun _ => rfl

/-- The data of `b` itself. -/
theorem load_paths_agree_raised :
    Always (step (drivers (fun _ => []) 0)) (LoadsAgree (drivers (fun _ => []) 0)) twoCharacters
      [.upload (uploadForB (literal "b") (by decide)), .elapse 1000] := by
  refine (load_paths_agree_iff _ _ twoCharacters_sized ?_ (twoCharacters_agree _ _)).mpr
    ⟨⟨rfl, ?_, ?_⟩, trivial, trivial⟩
  · intro u hu
    obtain rfl : u = uploadForB (literal "b") (by decide) := by simpa using hu
    exact (by decide : twoCharacters.Stored (literal "a", literal "b"))
  · intro q hq hKey
    have hPair := hq.2
    rw [twoCharacters_pairs] at hPair
    rcases List.mem_pair.mp hPair with rfl | rfl
    · rfl
    · exact absurd hKey (by decide)
  · intro stored hGet
    have hStored : twoCharacters.db.getOneCharacterInfoFill2Message (literal "a") (literal "b") =
        some ⟨literal "a", literal "b", 1, true, 100112, 100011, 0, 100, 50, 10, 100, 10, 10, 10,
          200001, 0x409F400000000000, 0x409F400000000000, 0x4056800000000000⟩ := by decide
    obtain rfl := Option.some.inj (hStored.symm.trans hGet)
    exact ⟨rfl, rfl, rfl⟩

/-- The data of `c`, uploaded for `b`: it is what a load gets for `b` from the cache, and
the document of `c` that it changes. -/
theorem load_paths_differ :
    ¬ Always (step (drivers (fun _ => []) 0)) (LoadsAgree (drivers (fun _ => []) 0)) twoCharacters
      [.upload (uploadForB (literal "c") (by decide))] := by
  rintro ⟨-, hAgree⟩
  have hStored : twoCharacters.Stored (literal "a", literal "b") := by decide
  have hFit := (loadsAgree_upload_iff _ _ twoCharacters_sized hStored
    (twoCharacters_agree _ _)).mp hAgree
  exact absurd hFit.named (by decide)

end Store

end WarringServer.DBServer
