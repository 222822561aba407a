import WarringServer.DBServer.Consistency
import WarringServer.DBServer.UniqueNames

/-!
# Accounts — registration and the listing of characters

Two answers of `AccountOp` that hang on more than the account they are about.

A registration takes every duplicate-key error for an account that exists. But the unique
index on `characters.character_name` raises it, too, if some array holds the new
account's name, which is that of its placeholder.

The listings cut the array with `$slice`, the placeholder off its head and everything
behind the first 100 characters off its end; `getCharacterNum` counts the whole array.

* `registersRightly_iff` — a registration is answered rightly exactly if the account
  exists or no array holds its name;
* `listing_complete_iff` — a listing is complete exactly if the account has 100 characters
  at most.
-/

namespace WarringServer.DBServer

open Message Collection MakeDocHelper Run

namespace Database

-- ---------------------------------------------------------------------------
-- Registration
-- ---------------------------------------------------------------------------

/-- 0 for an account that exists; otherwise 1, and the account exists afterwards. -/
def RegistersRightly (db : Database) (accountName password address : Bytes) (now : Nat) : Prop :=
  let r := db.addNewAccount accountName password address now
  (r.2 = 0 ↔ db.HasAccount accountName) ∧
    (¬ db.HasAccount accountName → r.2 = 1 ∧ r.1.HasAccount accountName)

/-- An array holds the name, as that of its placeholder or of a character. -/
def HoldsName (db : Database) (name : Bytes) : Prop :=
  ∃ d ∈ db.accounts, ∃ e ∈ d.characters, e.characterName = name

section

variable {db : Database} {accountName password address : Bytes} {now : Nat}

/-- What the unique indexes say to a new account. -/
theorem admits_newAccount_iff :
    admits accountIndexes db.accounts none (makeDocNewAccount accountName password address now) =
      true ↔ ¬ db.HasAccount accountName ∧ ¬ db.HoldsName accountName := by
  simp only [admits_none_iff, Apart, accountIndexes, makeDocNewAccount, List.mem_cons,
    List.not_mem_nil, or_false, forall_eq_or_imp, forall_eq, List.map_cons, List.map_nil,
    HasAccount, HoldsName, List.mem_map, not_exists, not_and]
  constructor
  · intro hApart
    exact ⟨fun d hd hName => (hApart d hd).1 hName.symm, fun d hd e he hName =>
      (hApart d hd).2 e he hName⟩
  · rintro ⟨hAccount, hNames⟩ d hd
    exact ⟨fun hName => hAccount d hd hName.symm, hNames d hd⟩

theorem addNewAccount_free (h : ¬ db.HasAccount accountName) (h' : ¬ db.HoldsName accountName) :
    db.addNewAccount accountName password address now =
      ({ db with
        accounts := db.accounts ++ [makeDocNewAccount accountName password address now] }, 1) := by
  unfold addNewAccount insertOne
  rw [if_pos (admits_newAccount_iff.mpr ⟨h, h'⟩)]

theorem addNewAccount_taken (h : db.HasAccount accountName ∨ db.HoldsName accountName) :
    db.addNewAccount accountName password address now = (db, 0) := by
  have hNot : ¬ admits accountIndexes db.accounts none
      (makeDocNewAccount accountName password address now) = true := by
    rw [admits_newAccount_iff, ← not_or]
    exact not_not.mpr h
  unfold addNewAccount insertOne
  rw [if_neg hNot]

end

/-- **Registration.** It is answered rightly exactly if the account exists, or no array holds
its name. -/
theorem registersRightly_iff (db : Database) (accountName password address : Bytes) (now : Nat) :
    db.RegistersRightly accountName password address now ↔
      (db.HasAccount accountName ∨ ¬ db.HoldsName accountName) := by
  unfold RegistersRightly
  by_cases hAccount : db.HasAccount accountName
  · rw [addNewAccount_taken (Or.inl hAccount)]
    simp [hAccount]
  · by_cases hName : db.HoldsName accountName
    · -- the duplicate key is that of a character
      rw [addNewAccount_taken (Or.inr hName)]
      simp [hAccount, hName]
    · rw [addNewAccount_free hAccount hName]
      have hAfter : HasAccount { db with accounts := db.accounts ++
          [makeDocNewAccount accountName password address now] } accountName := by
        simp [HasAccount, makeDocNewAccount]
      simp [hAccount, hName, hAfter]

/-- A call that registers an account or creates a character. -/
def Call.Grows : Call → Prop
  | .addNewAccount .. | .addNewCharacter _ => True
  | .removeCharacter .. | .updateCharacter .. => False

/-- A player has a character of the name of the new account. -/
theorem registration_refused :
    ¬ ∀ cs : List Call, (∀ c ∈ cs, c.Grows) → ∀ accountName password address now,
      (final call empty cs).RegistersRightly accountName password address now := by
  intro hAll
  have hRight := hAll
    [.addNewAccount (literal "a") (literal "p") [] 0,
      .addNewCharacter ⟨⟨50, literal "a", []⟩, literal "hero", true, 100112, 100011⟩]
    (by simp [Call.Grows]) (literal "hero") [] [] 0
  exact absurd (hRight.1.mp (by decide)) (by decide)

-- ---------------------------------------------------------------------------
-- Listing
-- ---------------------------------------------------------------------------

/-- The whole array, less the placeholder. -/
def getCharacterNum (db : Database) (accountName : Bytes) : Int :=
  match db.accounts.find? (byAccount accountName) with
  | some d => d.characters.length - 1
  | none => 0

def getAllCharacterName (db : Database) (accountName : Bytes) : List Bytes :=
  match db.accounts.find? (byAccount accountName) with
  | some d => ((d.characters.drop 1).take 100).map CharacterBaseInfo.characterName
  | none => []

/-- The names are those of the characters of the account, each once, without the
placeholder, and as many as are counted. -/
structure Complete (db : Database) (accountName : Bytes) (listing : List Bytes) : Prop where
  mem_iff : ∀ name, name ∈ listing ↔ (accountName, name) ∈ db.stored
  nodup : listing.Nodup
  no_placeholder : accountName ∉ listing
  length_eq : (listing.length : Int) = db.getCharacterNum accountName

/-- Both listings are complete. -/
def ListsCompletely (db : Database) (accountName : Bytes) : Prop :=
  db.Complete accountName (db.getAllCharacterName accountName) ∧
    db.Complete accountName ((db.getAllCharacterBaseInfoFill2Message accountName).map
      CharacterBaseInfo.characterName)

/-- What calls for existing accounts keep. -/
structure Orderly (db : Database) : Prop where
  indexed : db.Indexed
  agree : db.Agree
  names : db.NamesNodup

section

variable {db : Database} {accountName : Bytes}

theorem namesNodup_addNewCharacter (h : db.Indexed) (hNames : db.NamesNodup)
    (newCharacter : LoginCharacterRequestMessage) :
    (db.addNewCharacter newCharacter).1.NamesNodup := by
  by_cases hAccount : db.HasAccount newCharacter.account
  · unfold addNewCharacter
    split
    · exact hNames
    · rename_i hGuard
      split
      · rename_i db' hCommit
        refine ((insertNewCharacter_spec h.unique hAccount hCommit).2.2 hNames).mpr ?_
        rintro ⟨d, hd, hMatch⟩
        rw [none_of_find hGuard d hd] at hMatch
        cases hMatch
      · exact hNames
  · have hMissing : ∀ d ∈ db.accounts, d.account ≠ newCharacter.account := fun d hd hName =>
      hAccount (List.mem_map.mpr ⟨d, hd, hName⟩)
    rw [addNewCharacter_orphan hMissing]
    exact hNames

theorem namesNodup_removeCharacter (hNames : db.NamesNodup) (accountName characterName : Bytes) :
    (db.removeCharacter accountName characterName).1.NamesNodup := by
  unfold removeCharacter
  split
  · exact hNames
  · split
    · exact hNames
    · rename_i accounts modified hUpdate
      have hKept : NamesNodup ⟨accounts, db.characters⟩ :=
        forall_updateOne hUpdate hNames fun d _ hd =>
          hd.sublist (List.Sublist.map _ List.filter_sublist)
      split
      · exact hKept
      · exact hKept

theorem namesNodup_call (h : db.Indexed) (hNames : db.NamesNodup) (c : Call) :
    (db.call c).NamesNodup := by
  cases c with
  | addNewAccount accountName password address now =>
    show (db.addNewAccount accountName password address now).1.NamesNodup
    unfold addNewAccount
    split
    · rename_i accounts hInserted
      obtain ⟨-, rfl⟩ := insertOne_eq_some hInserted
      intro d hd
      rcases List.mem_append.mp hd with hd | hd
      · exact hNames d hd
      · rw [List.mem_singleton.mp hd]
        exact List.nodup_singleton _
    · exact hNames
  | addNewCharacter newCharacter => exact namesNodup_addNewCharacter h hNames newCharacter
  | removeCharacter accountName characterName => exact namesNodup_removeCharacter hNames _ _
  | updateCharacter characterInfo last now =>
    intro d hd
    have hMem : (d.account, d.characters.map CharacterBaseInfo.characterName) ∈
        Database.names db.accounts := by
      rw [← names_afterUpdate db characterInfo last now]
      exact List.mem_map_of_mem (f := fun d : AccountDocument =>
        (d.account, d.characters.map CharacterBaseInfo.characterName)) hd
    obtain ⟨d', hd', hSame⟩ := List.mem_map.mp hMem
    have hSameNames := (Prod.mk.inj hSame).2
    rw [← hSameNames]
    exact hNames d' hd'

theorem orderly_empty : empty.Orderly :=
  ⟨indexed_empty, agree_empty, fun _ hd => absurd hd List.not_mem_nil⟩

theorem orderly_run {cs : List Call} (h : Each call ForExistingAccount empty cs) :
    (final call empty cs).Orderly := by
  refine (always_of_each (fun _ _ => True) (fun _ _ _ _ _ _ => trivial) ?_ orderly_empty trivial
    h).final
  intro db c _ _ hOrderly hExisting
  exact ⟨indexed_call hOrderly.indexed c,
    (agree_call_iff hOrderly.indexed hOrderly.agree c).mpr hExisting,
    namesNodup_call hOrderly.indexed hOrderly.names c⟩

/-- The array of an account: its placeholder, and behind it the characters, each once. -/
theorem Orderly.array (h : db.Orderly) (hAccount : db.HasAccount accountName) :
    ∃ d e rest, db.accounts.find? (byAccount accountName) = some d ∧ d.characters = e :: rest ∧
      (rest.map CharacterBaseInfo.characterName).Nodup ∧
      accountName ∉ rest.map CharacterBaseInfo.characterName ∧
      ∀ name, name ∈ rest.map CharacterBaseInfo.characterName ↔ (accountName, name) ∈ db.stored := by
  obtain ⟨d, hd, rfl⟩ := List.mem_map.mp hAccount
  obtain ⟨e, rest, hCharacters, hHead⟩ := h.indexed.headed d hd
  have hFound : db.accounts.find? (byAccount d.account) = some d := by
    cases hFind : db.accounts.find? (byAccount d.account) with
    | none =>
      have hOther := none_of_find hFind d hd
      rw [byAccount_iff.mpr rfl] at hOther
      cases hOther
    | some d' =>
      have hName := byAccount_iff.mp (List.find?_some hFind)
      rw [account_unique h.indexed.unique (List.mem_of_find?_eq_some hFind) hd hName]
  have hNodup := h.names d hd
  rw [hCharacters, List.map_cons, List.nodup_cons, hHead] at hNodup
  refine ⟨d, e, rest, hFound, hCharacters, hNodup.2, hNodup.1, fun name => ?_⟩
  rw [h.agree.stored_iff_listed]
  constructor
  · intro hName
    obtain ⟨x, hx, rfl⟩ := List.mem_map.mp hName
    refine List.mem_flatMap.mpr ⟨d, hd, List.mem_map.mpr ⟨x, ?_, rfl⟩⟩
    rw [hCharacters]
    exact hx
  · intro hListed
    obtain ⟨d', hd', hMem⟩ := List.mem_flatMap.mp hListed
    obtain ⟨x, hx, hPair⟩ := List.mem_map.mp hMem
    obtain ⟨hName, rfl⟩ := Prod.mk.injEq .. ▸ hPair
    -- only this account has the name
    rw [account_unique h.indexed.unique hd' hd hName, hCharacters] at hx
    exact List.mem_map_of_mem hx

/-- The characters of the account, as the collection `characters` has them. -/
def storedFor (db : Database) (accountName : Bytes) : List CharacterPair :=
  db.stored.filter fun p => p.1 = accountName

theorem storedFor_length (h : db.Orderly) {rest : List CharacterBaseInfo}
    (hNodup : (rest.map CharacterBaseInfo.characterName).Nodup)
    (hMem : ∀ name, name ∈ rest.map CharacterBaseInfo.characterName ↔
      (accountName, name) ∈ db.stored) :
    (db.storedFor accountName).length = rest.length := by
  have hPairs : (rest.map fun e => (accountName, e.characterName)).Nodup := by
    have hMap := hNodup.map (f := Prod.mk accountName) fun _ _ hEq => (Prod.mk.injEq .. ▸ hEq).2
    rwa [List.map_map] at hMap
  have hPerm : (db.storedFor accountName).Perm
      (rest.map fun e => (accountName, e.characterName)) := by
    refine (List.perm_ext_iff_of_nodup (h.agree.stored_once.filter _) hPairs).mpr ?_
    rintro ⟨account, name⟩
    simp only [List.mem_filter, decide_eq_true_iff]
    constructor
    · rintro ⟨hStored, rfl⟩
      obtain ⟨e, he, rfl⟩ := List.mem_map.mp ((hMem name).mpr hStored)
      exact List.mem_map.mpr ⟨e, he, rfl⟩
    · intro hListed
      obtain ⟨e, he, hPair⟩ := List.mem_map.mp hListed
      obtain ⟨rfl, rfl⟩ := Prod.mk.injEq .. ▸ hPair
      exact ⟨(hMem _).mp (List.mem_map_of_mem he), rfl⟩
  rw [hPerm.length_eq, List.length_map]

/-- The first 100 characters are all of them exactly if there are no more. -/
theorem complete_take_iff {rest : List CharacterBaseInfo}
    (hNodup : (rest.map CharacterBaseInfo.characterName).Nodup)
    (hHead : accountName ∉ rest.map CharacterBaseInfo.characterName)
    (hMem : ∀ name, name ∈ rest.map CharacterBaseInfo.characterName ↔
      (accountName, name) ∈ db.stored)
    (hNum : db.getCharacterNum accountName = rest.length) :
    db.Complete accountName ((rest.take 100).map CharacterBaseInfo.characterName) ↔
      rest.length ≤ 100 := by
  constructor
  · intro hComplete
    have hLength := hComplete.length_eq
    rw [hNum, List.length_map, List.length_take] at hLength
    omega
  · intro hFew
    rw [List.take_of_length_le hFew]
    exact ⟨hMem, hNodup, hHead, by rw [hNum, List.length_map]⟩

end

/-- **Listing.** After any calls for existing accounts, the listings of an account are complete
exactly if it has 100 characters at most. -/
theorem listing_complete_iff (cs : List Call) (h : Each call ForExistingAccount empty cs)
    (accountName : Bytes) (hAccount : (final call empty cs).HasAccount accountName) :
    (final call empty cs).ListsCompletely accountName ↔
      ((final call empty cs).storedFor accountName).length ≤ 100 := by
  have hOrderly := orderly_run h
  obtain ⟨d, e, rest, hFound, hCharacters, hNodup, hHead, hMem⟩ := hOrderly.array hAccount
  have hNum : (final call empty cs).getCharacterNum accountName = rest.length := by
    rw [getCharacterNum, hFound]
    simp [hCharacters]
  have hTake : (d.characters.drop 1).take 100 = rest.take 100 := by rw [hCharacters]; rfl
  have hComplete := complete_take_iff hNodup hHead hMem hNum
  rw [storedFor_length hOrderly hNodup hMem, ListsCompletely, getAllCharacterName,
    getAllCharacterBaseInfoFill2Message, hFound]
  dsimp only
  rw [hTake, hComplete, and_self]

theorem listing_complete_one :
    let db := final call empty [.addNewAccount (literal "a") (literal "p") [] 0,
      .addNewCharacter ⟨⟨50, literal "a", []⟩, literal "hero", true, 100112, 100011⟩]
    db.ListsCompletely (literal "a") ↔ (db.storedFor (literal "a")).length ≤ 100 :=
  listing_complete_iff _ (by decide) (literal "a") (by decide)

/-- A registration and 101 characters, with names of one byte. -/
def crowd : List Call :=
  .addNewAccount (literal "a") (literal "p") [] 0 ::
    (List.range 101).map fun i =>
      .addNewCharacter ⟨⟨50, literal "a", []⟩, [UInt8.ofNat (i + 100)], true, 100112, 100011⟩

/-- The last of them is counted, but not listed. -/
theorem listing_cut :
    ¬ ∀ cs : List Call, Each call ForExistingAccount empty cs → ∀ accountName,
      (final call empty cs).HasAccount accountName →
        (final call empty cs).ListsCompletely accountName := by
  intro hAll
  have hCrowd : Each call ForExistingAccount empty crowd ∧
      (final call empty crowd).HasAccount (literal "a") ∧
      ((final call empty crowd).getAllCharacterName (literal "a")).length = 100 ∧
      (final call empty crowd).getCharacterNum (literal "a") = 101 := by decide +kernel
  obtain ⟨hEach, hAccount, hListed, hCounted⟩ := hCrowd
  have hLength := (hAll crowd hEach (literal "a") hAccount).1.length_eq
  rw [hListed, hCounted] at hLength
  cases hLength

end Database

end WarringServer.DBServer
