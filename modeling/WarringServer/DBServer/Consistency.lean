import WarringServer.DBServer.Database
import WarringServer.Lib.Run

/-!
# Consistency — accounts and characters name the same characters

Every character has a document in `characters` and an element in the array of its
account, behind the placeholder. `addNewCharacter` writes the two in one transaction,
yet it does not look at how many accounts its `update_one` matched: for an account that
does not exist the transaction commits the document alone. `removeCharacter` does look
at the count.

* `agree_addNewCharacter_iff` — that call keeps the collections in agreement exactly
  if the account exists;
* `collections_agree_iff` — so a sequence of calls does exactly if characters are
  only added to existing accounts.
-/

namespace WarringServer.DBServer

open Message Collection MakeDocHelper Run

-- ---------------------------------------------------------------------------
-- The characters of the two collections
-- ---------------------------------------------------------------------------

/-- The characters an account lists behind the placeholder. -/
def AccountDocument.listed (d : AccountDocument) : List CharacterPair :=
  d.characters.tail.map fun e => (d.account, e.characterName)

/-- The array begins with the placeholder. -/
def AccountDocument.Headed (d : AccountDocument) : Prop :=
  ∃ e rest, d.characters = e :: rest ∧ e.characterName = d.account

namespace Database

/-- The characters in the arrays of `accounts`. -/
def listed (db : Database) : List CharacterPair := db.accounts.flatMap AccountDocument.listed

/-- The characters with a document in `characters`. -/
def stored (db : Database) : List CharacterPair := db.characters.map CharacterDocument.pair

/-- The collections agree on the characters, each of which occurs once. -/
structure Agree (db : Database) : Prop where
  stored_iff_listed : ∀ p, p ∈ db.stored ↔ p ∈ db.listed
  stored_once : db.stored.Nodup
  listed_once : db.listed.Nodup

/-- What every sequence of calls keeps: the unique indexes and the placeholders. -/
structure Indexed (db : Database) : Prop where
  unique : Unique accountIndexes db.accounts
  headed : ∀ d ∈ db.accounts, d.Headed

-- ---------------------------------------------------------------------------
-- Calls
-- ---------------------------------------------------------------------------

/-- The calls that change the two collections. -/
inductive Call where
  | addNewAccount (accountName password address : Bytes) (now : Nat)
  | addNewCharacter (newCharacter : LoginCharacterRequestMessage)
  | removeCharacter (accountName characterName : Bytes)
  | updateCharacter (characterInfo : CharacterInfo) (last : Bool) (now : Nat)
  deriving Repr, DecidableEq

def call (db : Database) : Call → Database
  | .addNewAccount accountName password address now =>
    (db.addNewAccount accountName password address now).1
  | .addNewCharacter newCharacter => (db.addNewCharacter newCharacter).1
  | .removeCharacter accountName characterName =>
    (db.removeCharacter accountName characterName).1
  | .updateCharacter characterInfo last now => (db.updateCharacter characterInfo last now).1

/-- A character is added to an account that exists. -/
def ForExistingAccount (db : Database) : Call → Prop
  | .addNewCharacter newCharacter => ∃ d ∈ db.accounts, d.account = newCharacter.account
  | _ => True

instance (db : Database) : DecidablePred db.ForExistingAccount := fun c => by
  cases c <;> unfold ForExistingAccount <;> infer_instance

end Database

-- ---------------------------------------------------------------------------
-- Arrays
-- ---------------------------------------------------------------------------

section

variable {d : AccountDocument}

theorem filter_ne_of_not_mem {p : CharacterPair} {ps : List CharacterPair} (h : p ∉ ps) :
    ps.filter (· ≠ p) = ps := by
  refine List.filter_eq_self.mpr fun q hq => decide_eq_true ?_
  rintro rfl
  exact h hq

theorem mem_listed {p : CharacterPair} (h : p ∈ d.listed) :
    d.account = p.1 ∧ ∃ e ∈ d.characters, e.characterName = p.2 := by
  obtain ⟨e, he, rfl⟩ := List.mem_map.mp h
  exact ⟨rfl, e, List.mem_of_mem_tail he, rfl⟩

/-- Accounts of other names do not list a character. -/
theorem not_mem_listed_of_account {p : CharacterPair} {ds : List AccountDocument}
    (h : ∀ d ∈ ds, d.account ≠ p.1) : p ∉ ds.flatMap AccountDocument.listed := by
  intro hMem
  obtain ⟨d, hd, hListed⟩ := List.mem_flatMap.mp hMem
  exact h d hd (mem_listed hListed).1

/-- What an account lists depends on its name and the names in its array. -/
theorem listed_congr {d' : AccountDocument} (hAccount : d'.account = d.account)
    (hNames : d'.characters.map CharacterBaseInfo.characterName =
      d.characters.map CharacterBaseInfo.characterName) : d'.listed = d.listed := by
  have hPairs : ∀ x : AccountDocument, x.listed =
      (x.characters.map CharacterBaseInfo.characterName).tail.map (Prod.mk x.account) := by
    intro x
    rw [AccountDocument.listed, ← List.map_tail, List.map_map]
    rfl
  rw [hPairs, hPairs, hNames, hAccount]

theorem headed_congr {d' : AccountDocument} (hAccount : d'.account = d.account)
    (hNames : d'.characters.map CharacterBaseInfo.characterName =
      d.characters.map CharacterBaseInfo.characterName) (h : d.Headed) : d'.Headed := by
  obtain ⟨e, rest, hCharacters, hName⟩ := h
  rw [hCharacters] at hNames
  obtain ⟨e', rest', hCharacters', hName', -⟩ := List.map_eq_cons_iff.mp hNames
  exact ⟨e', rest', hCharacters', by rw [hName', hName, hAccount]⟩

theorem listed_insert (h : d.Headed) (newCharacter : LoginCharacterRequestMessage) :
    (makeDocAccountInsertNewCharacter newCharacter d).listed =
      d.listed ++ [(d.account, newCharacter.characterName)] := by
  obtain ⟨e, rest, hCharacters, -⟩ := h
  simp [AccountDocument.listed, makeDocAccountInsertNewCharacter, hCharacters]

/-- `$pull` of another name than the placeholder's. -/
theorem characters_remove {characterName : Bytes} {e : CharacterBaseInfo}
    {rest : List CharacterBaseInfo} (hCharacters : d.characters = e :: rest)
    (hName : e.characterName ≠ characterName) :
    (makeDocAccountRemoveCharacter characterName d).characters =
      e :: rest.filter fun e => e.characterName ≠ characterName := by
  rw [makeDocAccountRemoveCharacter, hCharacters, List.filter_cons_of_pos (by simp [hName])]

theorem listed_remove {characterName : Bytes} (h : d.Headed) (hName : d.account ≠ characterName) :
    (makeDocAccountRemoveCharacter characterName d).listed =
      d.listed.filter (· ≠ (d.account, characterName)) := by
  obtain ⟨e, rest, hCharacters, hHead⟩ := h
  rw [AccountDocument.listed, characters_remove hCharacters (hHead ▸ hName), AccountDocument.listed,
    hCharacters, List.tail_cons, List.tail_cons, List.filter_map]
  congr 1
  exact List.filter_congr fun x _ => by simp [Function.comp]

/-- `$pull` changes the account exactly if it lists the character. -/
theorem remove_eq_self_iff {characterName : Bytes} (h : d.Headed)
    (hName : d.account ≠ characterName) :
    makeDocAccountRemoveCharacter characterName d = d ↔ (d.account, characterName) ∉ d.listed := by
  constructor
  · intro hSame
    have hListed := listed_remove h hName
    rw [hSame] at hListed
    rw [hListed, List.mem_filter]
    simp
  · intro hNot
    obtain ⟨e, rest, hCharacters, hHead⟩ := h
    have hKept : rest.filter (fun e => e.characterName ≠ characterName) = rest := by
      refine List.filter_eq_self.mpr fun x hx => decide_eq_true ?_
      rintro rfl
      refine hNot (List.mem_map.mpr ⟨x, ?_, rfl⟩)
      rw [hCharacters]
      exact hx
    have hSame : (makeDocAccountRemoveCharacter characterName d).characters = d.characters := by
      rw [characters_remove hCharacters (by rw [hHead]; exact hName), hKept, hCharacters]
    cases d
    simpa [makeDocAccountRemoveCharacter] using hSame

end

namespace Database

variable {db : Database}

-- ---------------------------------------------------------------------------
-- The account of a call
-- ---------------------------------------------------------------------------

/-- An account document is the only one with its name, so only it lists its characters. -/
theorem Indexed.account_split (h : db.Indexed) {before after : List AccountDocument}
    {d : AccountDocument} (hAccounts : db.accounts = before ++ d :: after) :
    ∀ x ∈ before ++ after, x.account ≠ d.account := by
  have hNodup : (db.accounts.map AccountDocument.account).Nodup :=
    nodup_of_unique (f := AccountDocument.account) List.mem_cons_self h.unique
  rw [hAccounts, List.map_append, List.map_cons] at hNodup
  have hNot := (List.nodup_cons.mp (List.nodup_middle.mp hNodup)).1
  intro x hx hEq
  rw [← List.map_append] at hNot
  exact hNot (hEq ▸ List.mem_map_of_mem hx)

theorem listed_split {before after : List AccountDocument} {d : AccountDocument}
    (hAccounts : db.accounts = before ++ d :: after) :
    db.listed = before.flatMap AccountDocument.listed ++
      (d.listed ++ after.flatMap AccountDocument.listed) := by
  rw [listed, hAccounts, List.flatMap_append, List.flatMap_cons]

theorem agree_of_eq {db' : Database} (hListed : db'.listed = db.listed)
    (hStored : db'.stored = db.stored) (h : db.Agree) : db'.Agree := by
  constructor
  · rw [hListed, hStored]
    exact h.stored_iff_listed
  · rw [hStored]
    exact h.stored_once
  · rw [hListed]
    exact h.listed_once

-- ---------------------------------------------------------------------------
-- `addNewAccount`
-- ---------------------------------------------------------------------------

/-- A new account lists no character. -/
theorem addNewAccount_listed (db : Database) (accountName password address : Bytes)
    (now : Nat) :
    (db.addNewAccount accountName password address now).1.listed = db.listed ∧
      (db.addNewAccount accountName password address now).1.stored = db.stored := by
  unfold addNewAccount
  split
  · rename_i accounts hInserted
    obtain ⟨-, rfl⟩ := insertOne_eq_some hInserted
    refine ⟨?_, rfl⟩
    rw [listed, List.flatMap_append]
    simp [AccountDocument.listed, makeDocNewAccount, listed]
  · exact ⟨rfl, rfl⟩

theorem indexed_addNewAccount (h : db.Indexed) (accountName password address : Bytes)
    (now : Nat) : (db.addNewAccount accountName password address now).1.Indexed := by
  unfold addNewAccount
  split
  · rename_i accounts hInserted
    refine ⟨insertOne_unique h.unique hInserted, ?_⟩
    obtain ⟨-, rfl⟩ := insertOne_eq_some hInserted
    intro d hd
    rcases List.mem_append.mp hd with hd | hd
    · exact h.headed d hd
    · -- the new document is its placeholder alone
      obtain rfl := List.mem_singleton.mp hd
      exact ⟨_, _, rfl, rfl⟩
  · exact h

-- ---------------------------------------------------------------------------
-- `addNewCharacter`
-- ---------------------------------------------------------------------------

/-- A transaction that commits for an account that exists adds the character to both
collections. -/
theorem insertNewCharacter_perm {db' : Database} {newCharacter : LoginCharacterRequestMessage}
    (h : db.Indexed) (hExists : ∃ d ∈ db.accounts, d.account = newCharacter.account)
    (hCommit : db.insertNewCharacter newCharacter = some db') :
    db'.listed.Perm ((newCharacter.account, newCharacter.characterName) :: db.listed) ∧
      db'.stored.Perm ((newCharacter.account, newCharacter.characterName) :: db.stored) := by
  simp only [insertNewCharacter, insertOne, admits, characterIndexes, List.all_nil, if_true,
    Option.bind_eq_bind, Option.bind_some, Option.pure_def, Option.bind_eq_some_iff,
    Option.some.injEq] at hCommit
  obtain ⟨⟨accounts, n⟩, hUpdate, rfl⟩ := hCommit
  constructor
  · obtain ⟨hNone, -⟩ | ⟨before, d, after, hAccounts, -, hd, -, hResult⟩ := updateOne_cases hUpdate
    · -- the account does match
      obtain ⟨d, hd, hAccount⟩ := hExists
      have hMatch := hNone d hd
      rw [byAccount_iff.mpr hAccount] at hMatch
      cases hMatch
    · obtain rfl : accounts = before ++ makeDocAccountInsertNewCharacter newCharacter d :: after :=
        congrArg Prod.fst hResult
      have hName : d.account = newCharacter.account := byAccount_iff.mp hd
      have hHeaded : d.Headed := h.headed d (by rw [hAccounts]; simp)
      rw [listed_split rfl, listed_split hAccounts, listed_insert hHeaded, hName]
      -- the new pair moves to the front
      rw [List.append_assoc, List.singleton_append, ← List.append_assoc]
      refine List.perm_middle.trans ?_
      rw [List.append_assoc]
  · show (List.map CharacterDocument.pair (db.characters ++ [makeDocNewCharacter newCharacter])).Perm
      _
    rw [List.map_append]
    exact List.perm_append_comm

/-- A character that the guard does not find is not listed. -/
theorem not_mem_listed {accountName characterName : Bytes}
    (h : db.accounts.find? (makeDocAccountAndCharacter accountName characterName) = none) :
    (accountName, characterName) ∉ db.listed := by
  intro hMem
  obtain ⟨d, hd, hListed⟩ := List.mem_flatMap.mp hMem
  obtain ⟨hAccount, hNames⟩ := mem_listed hListed
  have hMatch := none_of_find h d hd
  simp only [makeDocAccountAndCharacter, decide_eq_false_iff_not] at hMatch
  exact hMatch ⟨hAccount, hNames⟩

theorem indexed_insertNewCharacter {db' : Database} {newCharacter : LoginCharacterRequestMessage}
    (h : db.Indexed) (hCommit : db.insertNewCharacter newCharacter = some db') : db'.Indexed := by
  simp only [insertNewCharacter, Option.bind_eq_bind, Option.bind_eq_some_iff, Option.pure_def,
    Option.some.injEq] at hCommit
  obtain ⟨⟨accounts, n⟩, hUpdate, characters, -, rfl⟩ := hCommit
  refine ⟨updateOne_unique h.unique hUpdate, forall_updateOne hUpdate h.headed ?_⟩
  rintro d - ⟨e, rest, hCharacters, hName⟩
  exact ⟨e, rest ++ _, by rw [makeDocAccountInsertNewCharacter, hCharacters, List.cons_append],
    hName⟩

theorem indexed_addNewCharacter (h : db.Indexed) (newCharacter : LoginCharacterRequestMessage) :
    (db.addNewCharacter newCharacter).1.Indexed := by
  unfold addNewCharacter
  split
  · exact h
  · split
    · rename_i db' hCommit
      exact indexed_insertNewCharacter h hCommit
    · exact h

/-- Without the account, the document of the character is all that is written. -/
theorem addNewCharacter_orphan {newCharacter : LoginCharacterRequestMessage}
    (hMissing : ∀ d ∈ db.accounts, d.account ≠ newCharacter.account) :
    db.addNewCharacter newCharacter =
      (⟨db.accounts, db.characters ++ [makeDocNewCharacter newCharacter]⟩, 1) := by
  have hGuard : db.accounts.find?
      (makeDocAccountAndCharacter newCharacter.account newCharacter.characterName) = none := by
    refine List.find?_eq_none.mpr fun d hd => ?_
    simp [makeDocAccountAndCharacter, hMissing d hd]
  have hUpdate : db.accounts.find? (byAccount newCharacter.account) = none := by
    refine List.find?_eq_none.mpr fun d hd => ?_
    simp [byAccount, hMissing d hd]
  simp [addNewCharacter, hGuard, insertNewCharacter, updateOne, hUpdate, insertOne, admits,
    characterIndexes]

/-- **One call.** A character is added on both sides or on neither, exactly if its
account exists. -/
theorem agree_addNewCharacter_iff (h : db.Indexed) (hAgree : db.Agree)
    (newCharacter : LoginCharacterRequestMessage) :
    (db.addNewCharacter newCharacter).1.Agree ↔
      ∃ d ∈ db.accounts, d.account = newCharacter.account := by
  constructor
  · -- an orphan is stored and not listed
    intro hAfter
    by_contra hMissing
    push Not at hMissing
    rw [addNewCharacter_orphan hMissing] at hAfter
    have hStored : (newCharacter.account, newCharacter.characterName) ∈
        (⟨db.accounts, db.characters ++ [makeDocNewCharacter newCharacter]⟩ : Database).stored := by
      simp [stored, CharacterDocument.pair, makeDocNewCharacter]
    exact not_mem_listed_of_account hMissing ((hAfter.stored_iff_listed _).mp hStored)
  · intro hExists
    unfold addNewCharacter
    split
    · exact hAgree
    · rename_i hGuard
      split
      · rename_i db' hCommit
        obtain ⟨hListed, hStored⟩ := insertNewCharacter_perm h hExists hCommit
        have hNew := not_mem_listed hGuard
        constructor
        · intro p
          rw [hListed.mem_iff, hStored.mem_iff, List.mem_cons, List.mem_cons,
            hAgree.stored_iff_listed]
        · rw [hStored.nodup_iff, List.nodup_cons, hAgree.stored_iff_listed]
          exact ⟨hNew, hAgree.stored_once⟩
        · rw [hListed.nodup_iff, List.nodup_cons]
          exact ⟨hNew, hAgree.listed_once⟩
      · exact hAgree

-- ---------------------------------------------------------------------------
-- `removeCharacter`
-- ---------------------------------------------------------------------------

theorem indexed_removeCharacter (h : db.Indexed) (accountName characterName : Bytes) :
    (db.removeCharacter accountName characterName).1.Indexed := by
  unfold removeCharacter
  split
  · exact h
  · rename_i hName
    split
    · exact h
    · rename_i accounts modified hUpdate
      have hKept : Indexed ⟨accounts, db.characters⟩ := by
        refine ⟨updateOne_unique h.unique hUpdate, forall_updateOne hUpdate h.headed ?_⟩
        rintro d hd ⟨e, rest, hCharacters, hHead⟩
        have hAccount : d.account = accountName := byAccount_iff.mp hd
        -- the placeholder has another name than the one that goes
        exact ⟨e, _, characters_remove hCharacters (by rw [hHead, hAccount]; exact hName), hHead⟩
      split
      · exact ⟨hKept.unique, hKept.headed⟩
      · exact hKept

/-- `$pull` takes the character out of the list, and is counted if it was there. -/
theorem listed_update_remove {accountName characterName : Bytes} {accounts : List AccountDocument}
    {modified : Nat} (h : db.Indexed) (hName : accountName ≠ characterName)
    (hUpdate : updateOne accountIndexes (byAccount accountName)
      (makeDocAccountRemoveCharacter characterName) db.accounts = some (accounts, modified)) :
    accounts.flatMap AccountDocument.listed =
        db.listed.filter (· ≠ (accountName, characterName)) ∧
      (modified = 1 ↔ (accountName, characterName) ∈ db.listed) := by
  obtain ⟨hNone, hResult⟩ | ⟨before, d, after, hAccounts, -, hd, -, hResult⟩ :=
    updateOne_cases hUpdate
  · -- no such account lists anything
    obtain ⟨rfl, rfl⟩ := Prod.mk.injEq .. ▸ hResult
    have hNot : (accountName, characterName) ∉ db.listed := by
      refine not_mem_listed_of_account ?_
      intro d hd hAccount
      have hMatch := hNone d hd
      rw [byAccount_iff.mpr hAccount] at hMatch
      cases hMatch
    exact ⟨(filter_ne_of_not_mem hNot).symm, by simp [hNot]⟩
  · obtain ⟨rfl, rfl⟩ := Prod.mk.injEq .. ▸ hResult
    obtain rfl : d.account = accountName := byAccount_iff.mp hd
    have hHeaded : d.Headed := h.headed d (by rw [hAccounts]; simp)
    -- other accounts do not list the character
    have hApart := h.account_split hAccounts
    have hBefore : (d.account, characterName) ∉ before.flatMap AccountDocument.listed :=
      not_mem_listed_of_account fun x hx => hApart x (by simp [hx])
    have hAfter : (d.account, characterName) ∉ after.flatMap AccountDocument.listed :=
      not_mem_listed_of_account fun x hx => hApart x (by simp [hx])
    constructor
    · rw [listed_split hAccounts, List.flatMap_append, List.flatMap_cons,
        listed_remove hHeaded hName, List.filter_append, List.filter_append,
        filter_ne_of_not_mem hBefore, filter_ne_of_not_mem hAfter]
    · have hChanged := remove_eq_self_iff hHeaded hName
      rw [listed_split hAccounts, List.mem_append, List.mem_append]
      by_cases hSame : makeDocAccountRemoveCharacter characterName d = d
      · simp [hSame, hBefore, hAfter, hChanged.mp hSame]
      · simp [hSame, not_not.mp (mt hChanged.mpr hSame)]

/-- Deleting the document of a character takes it out of the stored ones. -/
theorem stored_deleteOne (p : CharacterPair) (characters : List CharacterDocument) :
    (deleteOne (byCharacter p) characters).1.map CharacterDocument.pair =
      (characters.map CharacterDocument.pair).erase p := by
  have hFilter : (byCharacter p : CharacterDocument → Bool) =
      (fun q => q == p) ∘ CharacterDocument.pair := by
    funext d
    simp [byCharacter, Function.comp, beq_eq_decide]
  rw [deleteOne, List.erase_eq_eraseP', List.eraseP_map, hFilter]

theorem agree_removeCharacter (h : db.Indexed) (hAgree : db.Agree)
    (accountName characterName : Bytes) :
    (db.removeCharacter accountName characterName).1.Agree := by
  unfold removeCharacter
  split
  · exact hAgree
  · rename_i hName
    split
    · exact hAgree
    · rename_i accounts modified hUpdate
      obtain ⟨hListed, hModified⟩ := listed_update_remove h hName hUpdate
      split
      · -- both collections lose the character
        have hStored := stored_deleteOne (accountName, characterName) db.characters
        constructor
        · intro p
          show p ∈ List.map CharacterDocument.pair _ ↔ p ∈ accounts.flatMap _
          have hErase : p ∈ db.stored.erase (accountName, characterName) ↔
              p ≠ (accountName, characterName) ∧ p ∈ db.stored :=
            hAgree.stored_once.mem_erase_iff
          rw [hStored, hListed, List.mem_filter, ← hAgree.stored_iff_listed]
          exact hErase.trans (by simp [and_comm])
        · show (List.map CharacterDocument.pair _).Nodup
          rw [hStored]
          exact hAgree.stored_once.erase _
        · show (accounts.flatMap _).Nodup
          rw [hListed]
          exact hAgree.listed_once.filter _
      · -- it was on neither side
        rename_i hCount
        have hNot := mt hModified.mpr hCount
        have hSame : (⟨accounts, db.characters⟩ : Database).listed = db.listed := by
          show accounts.flatMap AccountDocument.listed = db.listed
          rw [hListed, filter_ne_of_not_mem hNot]
        exact agree_of_eq hSame rfl hAgree

-- ---------------------------------------------------------------------------
-- `updateCharacter`
-- ---------------------------------------------------------------------------

theorem listed_of_names {accounts accounts' : List AccountDocument}
    (h : names accounts' = names accounts) :
    accounts'.flatMap AccountDocument.listed = accounts.flatMap AccountDocument.listed := by
  induction accounts' generalizing accounts with
  | nil => rw [List.map_eq_nil_iff.mp h.symm]
  | cons d' accounts' ih =>
    obtain ⟨d, accounts, rfl, hd, hRest⟩ := List.map_eq_cons_iff.mp h.symm
    obtain ⟨hAccount, hNames⟩ := Prod.mk.injEq .. ▸ hd
    rw [List.flatMap_cons, List.flatMap_cons, ih hRest.symm, listed_congr hAccount hNames]

/-- The unique indexes see the names only. -/
theorem unique_of_names {accounts accounts' : List AccountDocument}
    (h : names accounts' = names accounts) (hUnique : Unique accountIndexes accounts) :
    Unique accountIndexes accounts' := by
  have hNames : ∀ ds : List AccountDocument, Unique accountIndexes ds ↔
      (names ds).Pairwise fun x y => x.1 ≠ y.1 ∧ ∀ n ∈ x.2, n ∉ y.2 := by
    intro ds
    rw [names, List.pairwise_map]
    refine List.Pairwise.iff ?_
    intro d d'
    simp [Apart, accountIndexes]
  rw [hNames, h, ← hNames]
  exact hUnique

theorem headed_of_names {accounts accounts' : List AccountDocument}
    (h : names accounts' = names accounts) (hHeaded : ∀ d ∈ accounts, d.Headed) :
    ∀ d ∈ accounts', d.Headed := by
  intro d' hd'
  have hMem : (d'.account, d'.characters.map CharacterBaseInfo.characterName) ∈ names accounts := by
    rw [← h]
    exact List.mem_map_of_mem (f := fun d : AccountDocument =>
      (d.account, d.characters.map CharacterBaseInfo.characterName)) hd'
  obtain ⟨d, hd, hSame⟩ := List.mem_map.mp hMem
  obtain ⟨hAccount, hNames⟩ := Prod.mk.injEq .. ▸ hSame
  exact headed_congr hAccount.symm hNames.symm (hHeaded d hd)

theorem indexed_updateCharacter (h : db.Indexed) (characterInfo : CharacterInfo) (last : Bool)
    (now : Nat) : (db.updateCharacter characterInfo last now).1.Indexed := by
  have hNames := names_afterUpdate db characterInfo last now
  exact ⟨unique_of_names hNames h.unique, headed_of_names hNames h.headed⟩

theorem agree_updateCharacter (hAgree : db.Agree) (characterInfo : CharacterInfo) (last : Bool)
    (now : Nat) : (db.updateCharacter characterInfo last now).1.Agree :=
  agree_of_eq (listed_of_names (names_afterUpdate ..)) (pairs_updateCharacter ..) hAgree

-- ---------------------------------------------------------------------------
-- Sequences of calls
-- ---------------------------------------------------------------------------

theorem indexed_empty : empty.Indexed := ⟨unique_nil, fun _ h => absurd h List.not_mem_nil⟩

theorem agree_empty : empty.Agree := ⟨fun _ => Iff.rfl, List.nodup_nil, List.nodup_nil⟩

theorem indexed_call (h : db.Indexed) (c : Call) : (db.call c).Indexed := by
  cases c with
  | addNewAccount accountName password address now => exact indexed_addNewAccount h _ _ _ _
  | addNewCharacter newCharacter => exact indexed_addNewCharacter h _
  | removeCharacter accountName characterName => exact indexed_removeCharacter h _ _
  | updateCharacter characterInfo last now => exact indexed_updateCharacter h _ _ _

theorem agree_call_iff (h : db.Indexed) (hAgree : db.Agree) (c : Call) :
    (db.call c).Agree ↔ db.ForExistingAccount c := by
  cases c with
  | addNewAccount accountName password address now =>
    obtain ⟨hListed, hStored⟩ := addNewAccount_listed db accountName password address now
    exact iff_of_true (agree_of_eq hListed hStored hAgree) trivial
  | addNewCharacter newCharacter => exact agree_addNewCharacter_iff h hAgree newCharacter
  | removeCharacter accountName characterName =>
    exact iff_of_true (agree_removeCharacter h hAgree _ _) trivial
  | updateCharacter characterInfo last now =>
    exact iff_of_true (agree_updateCharacter hAgree _ _ _) trivial

/--
**Account and character collections.** After every call of a sequence, from an empty
database on, a character has a document exactly if its account lists it behind the
placeholder, and both occur once — if and only if the sequence adds characters to
accounts that exist at the time.
-/
theorem collections_agree_iff (calls : List Call) :
    Always call Agree empty calls ↔ Each call ForExistingAccount empty calls := by
  refine always_iff_each (fun db _ => db.Indexed) ?_ ?_ agree_empty indexed_empty
  · intro db c _ h _ _
    exact indexed_call h c
  · intro db c _ h hAgree
    exact agree_call_iff h hAgree c

/-- A character for an account nobody registered: the call reports success and leaves a
document that no account lists. -/
theorem collections_disagree :
    let newCharacter : LoginCharacterRequestMessage :=
      ⟨⟨50, literal "ghost", []⟩, literal "hero", true, 100112, 100011⟩
    (empty.addNewCharacter newCharacter).2 = 1 ∧
      ¬ Always call Agree empty [.addNewCharacter newCharacter] := by
  intro newCharacter
  refine ⟨by decide, fun h => ?_⟩
  have hExists := (agree_addNewCharacter_iff indexed_empty agree_empty newCharacter).mp h.2
  obtain ⟨d, hd, -⟩ := hExists
  exact absurd hd List.not_mem_nil

end Database

end WarringServer.DBServer
