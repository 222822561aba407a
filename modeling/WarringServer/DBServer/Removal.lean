import WarringServer.DBServer.Consistency

/-!
# Removal — `removeCharacter` under failures

`Database.removeCharacter` is the call that nothing disturbs. Here a driver exception or a
crash of the process may strike it anywhere: at the client and the session, in front of or
behind the effect of each operation, and at the commit. `with_transaction` calls the callback
again after an exception that it takes for transient.

The callback hands its session to neither operation. Both take effect at once, and the
transaction that is rolled back or committed around them is an empty one.

* `callback_listed` / `callback_unlisted` — what one call of the callback does, by the place
  at which it is struck;
* `removal_whole_iff` — the call is all or nothing exactly if the account does not list the
  character, or no update is carried out, or the first one that is carried out is followed
  by the deletion and, in the end, by the return;
* `removeCharacter_undisturbed` — without failures it is `Database.removeCharacter`.
-/

namespace WarringServer.DBServer

open Message Collection MakeDocHelper

namespace Removal

inductive Strike where
  | exception
  | crash
  deriving DecidableEq, Repr

/-- Where an attempt of the transaction is struck. -/
inductive Place where
  | beforeUpdate
  | afterUpdate
  | beforeDelete
  | afterDelete
  | commit
  deriving DecidableEq, Repr

/-- What goes wrong in a call. -/
structure Failures where
  /-- `mPool.acquire()` gives a client -/
  client : Bool
  /-- at `start_session`, outside of the `try` -/
  session : Option Strike
  /-- the exceptions after which the callback is called again -/
  retried : List Place
  /-- what strikes the last attempt -/
  last : Option (Place × Strike)
  deriving DecidableEq, Repr

/-- How a call ends. -/
inductive Ending where
  | returned (result : Int)
  | thrown
  | crashed
  deriving DecidableEq, Repr

/-- The callback and the commit behind it: the database and `removeResultCode`, and whether
the attempt was struck. -/
def callback (db : Database) (removeResultCode : Int) (accountName characterName : Bytes)
    (place : Option Place) : Database × Int × Bool :=
  if place = some .beforeUpdate then
    (db, removeResultCode, true)
  else
    match updateOne accountIndexes (byAccount accountName)
        (makeDocAccountRemoveCharacter characterName) db.accounts with
    | none => (db, removeResultCode, true)
    | some (accounts, modified) =>
      let db : Database := { db with accounts := accounts }
      if place = some .afterUpdate then
        (db, removeResultCode, true)
      else if modified = 1 then
        if place = some .beforeDelete then
          (db, removeResultCode, true)
        else
          let (characters, deleted) :=
            deleteOne (byCharacter (accountName, characterName)) db.characters
          let db : Database := { db with characters := characters }
          if place = some .afterDelete then
            (db, removeResultCode, true)
          else
            (db, deleted, place = some .commit)
      else
        (db, removeResultCode, place = some .commit)

/-- `session.with_transaction` in its `try` block. -/
def withTransaction (accountName characterName : Bytes) (db : Database)
    (removeResultCode : Int) : List Place → Option (Place × Strike) → Database × Ending
  | place :: retried, last =>
    match callback db removeResultCode accountName characterName (some place) with
    | (db, removeResultCode, true) =>
      withTransaction accountName characterName db removeResultCode retried last
    | (db, removeResultCode, false) => (db, .returned removeResultCode)
  | [], last =>
    match callback db removeResultCode accountName characterName (last.map Prod.fst) with
    | (db, _, true) => (db, if last.map Prod.snd = some .crash then .crashed else .returned (-1))
    | (db, removeResultCode, false) => (db, .returned removeResultCode)

def removeCharacter (f : Failures) (db : Database) (accountName characterName : Bytes) :
    Database × Ending :=
  if f.client = false ∨ accountName = characterName then
    (db, .returned (-1))
  else
    match f.session with
    | some .exception => (db, .thrown)
    | some .crash => (db, .crashed)
    | none => withTransaction accountName characterName db 0 f.retried f.last

-- ---------------------------------------------------------------------------
-- Conditions
-- ---------------------------------------------------------------------------

/-- A call that does not return 1 leaves the collections as they were. -/
def AllOrNothing (f : Failures) (db : Database) (accountName characterName : Bytes) : Prop :=
  (removeCharacter f db accountName characterName).2 ≠ .returned 1 →
    (removeCharacter f db accountName characterName).1 = db

/-- The account that `update_one` takes lists the character. -/
def Listed (db : Database) (p : CharacterPair) : Prop :=
  ∃ d ∈ db.accounts.find? (byAccount p.1), ∃ e ∈ d.characters, e.characterName = p.2

instance (db : Database) : DecidablePred (Listed db) := fun p =>
  inferInstanceAs (Decidable (∃ d ∈ db.accounts.find? (byAccount p.1), _))

/-- One of the attempts comes to its end. The character is gone, so none of them gets to the
deletion. -/
def Ends : List Place → Option (Place × Strike) → Prop
  | .beforeDelete :: _, _ | .afterDelete :: _, _ => True
  | .beforeUpdate :: retried, last | .afterUpdate :: retried, last
  | .commit :: retried, last => Ends retried last
  | [], none | [], some (.beforeDelete, _) | [], some (.afterDelete, _) => True
  | [], some (.beforeUpdate, _) | [], some (.afterUpdate, _) | [], some (.commit, _) => False

/-- No update is carried out; or the first one that is leads to a deletion that finds a
document, and from there to the end of an attempt. -/
def Whole (stored : Prop) : List Place → Option (Place × Strike) → Prop
  | .beforeUpdate :: retried, last => Whole stored retried last
  | .commit :: retried, last => stored ∧ Ends retried last
  | .afterUpdate :: _, _ | .beforeDelete :: _, _ | .afterDelete :: _, _ => False
  | [], none => stored
  | [], some (.beforeUpdate, _) => True
  | [], some (.afterUpdate, _) | [], some (.beforeDelete, _) | [], some (.afterDelete, _)
  | [], some (.commit, _) => False

-- ---------------------------------------------------------------------------
-- The two operations
-- ---------------------------------------------------------------------------

/-- The database behind the update. -/
def pulled (db : Database) (p : CharacterPair) : Database :=
  ⟨updateFirst (byAccount p.1) (makeDocAccountRemoveCharacter p.2) db.accounts, db.characters⟩

/-- The database behind the deletion. -/
def removed (db : Database) (p : CharacterPair) : Database :=
  ⟨(pulled db p).accounts, db.characters.eraseP (byCharacter p)⟩

section

variable {db : Database} {p : CharacterPair} {code : Int}

theorem pull_eq_self_iff {d : AccountDocument} {name : Bytes} :
    makeDocAccountRemoveCharacter name d = d ↔ ¬ ∃ e ∈ d.characters, e.characterName = name := by
  have hFilter : makeDocAccountRemoveCharacter name d = d ↔
      d.characters.filter (fun e => e.characterName ≠ name) = d.characters := by
    constructor
    · exact fun h => congrArg AccountDocument.characters h
    · intro h
      unfold makeDocAccountRemoveCharacter
      rw [h]
  rw [hFilter, List.filter_eq_self]
  simp

theorem not_listed_of_none (h : db.accounts.find? (byAccount p.1) = none) : ¬ Listed db p := by
  rintro ⟨d, hd, -⟩
  rw [h] at hd
  cases hd

/-- The account that is found lists the character exactly if `$pull` changes it. -/
theorem listed_iff_of_some {d : AccountDocument}
    (h : db.accounts.find? (byAccount p.1) = some d) :
    Listed db p ↔ makeDocAccountRemoveCharacter p.2 d ≠ d := by
  unfold Listed
  rw [h, Ne, pull_eq_self_iff, not_not]
  simp

/-- `update_one` never fails, and counts a character that was listed. -/
theorem updateOne_pull (db : Database) (p : CharacterPair) :
    updateOne accountIndexes (byAccount p.1) (makeDocAccountRemoveCharacter p.2) db.accounts =
      some ((pulled db p).accounts, if Listed db p then 1 else 0) := by
  unfold updateOne pulled
  cases hFound : db.accounts.find? (byAccount p.1) with
  | none =>
    rw [if_neg (not_listed_of_none hFound), updateFirst_none (none_of_find hFound)]
  | some d =>
    have hAdmits : admits accountIndexes (db.accounts.eraseP (byAccount p.1)) (some d)
        (makeDocAccountRemoveCharacter p.2 d) = true := by
      refine admits_of_subset ?_
      intro keys hKeys k hk
      rcases List.mem_pair.mp hKeys with rfl | rfl
      · exact hk
      · exact (List.filter_sublist.map _).subset hk
    dsimp only
    rw [if_pos hAdmits]
    by_cases hSame : makeDocAccountRemoveCharacter p.2 d = d
    · rw [if_pos hSame, if_neg ((listed_iff_of_some hFound).not.mpr (not_not.mpr hSame))]
    · rw [if_neg hSame, if_pos ((listed_iff_of_some hFound).mpr hSame)]

/-- The update changes the accounts exactly if the character is listed. -/
theorem pulled_eq_iff : (pulled db p).accounts = db.accounts ↔ ¬ Listed db p := by
  unfold pulled
  dsimp only
  cases hFound : db.accounts.find? (byAccount p.1) with
  | none =>
    rw [updateFirst_none (none_of_find hFound)]
    exact iff_of_true rfl (not_listed_of_none hFound)
  | some d =>
    obtain ⟨hd, before, after, hSplit, hBefore⟩ := split_of_find hFound
    rw [listed_iff_of_some hFound, not_not, hSplit, updateFirst_split hBefore hd,
      List.append_right_inj, List.cons.injEq, and_iff_left rfl]

/-- The character is not listed any more. -/
theorem not_listed_pulled {characters : List CharacterDocument} :
    ¬ Listed ⟨(pulled db p).accounts, characters⟩ p := by
  rintro ⟨d', hd', e, he, hName⟩
  have hMatch : ∀ d, byAccount p.1 d = true →
      byAccount p.1 (makeDocAccountRemoveCharacter p.2 d) = true := fun _ h => h
  have hFound : (db.accounts.find? (byAccount p.1)).map (makeDocAccountRemoveCharacter p.2) =
      some d' := (find_updateFirst hMatch db.accounts).symm.trans hd'
  obtain ⟨d, -, rfl⟩ := Option.map_eq_some_iff.mp hFound
  exact of_decide_eq_true (List.mem_filter.mp he).2 hName

-- ---------------------------------------------------------------------------
-- One attempt
-- ---------------------------------------------------------------------------

/-- An attempt for a character that is not listed. It does not get to the deletion. -/
theorem callback_unlisted (h : ¬ Listed db p) (place : Option Place) :
    callback db code p.1 p.2 place =
      match place with
      | some .beforeUpdate | some .afterUpdate | some .commit => (db, code, true)
      | some .beforeDelete | some .afterDelete | none => (db, code, false) := by
  have hSame : ({ db with accounts := (pulled db p).accounts } : Database) = db := by
    rw [pulled_eq_iff.mpr h]
  unfold callback
  rw [updateOne_pull, if_neg h]
  dsimp only
  rw [hSame]
  rcases place with _ | _ | _ | _ | _ | _ <;> rfl

theorem deleteOne_count (db : Database) (p : CharacterPair) :
    (deleteOne (byCharacter p) db.characters).2 = if p ∈ db.stored then 1 else 0 := by
  have hAny : db.characters.any (byCharacter p) = true ↔ p ∈ db.stored := by
    simp [Database.stored]
  exact if_congr hAny rfl rfl

/-- An attempt for a character that is listed, by the place at which it is struck. -/
theorem callback_listed (h : Listed db p) (place : Option Place) :
    callback db code p.1 p.2 place =
      match place with
      | some .beforeUpdate => (db, code, true)
      | some .afterUpdate | some .beforeDelete => (pulled db p, code, true)
      | some .afterDelete => (removed db p, code, true)
      | some .commit => (removed db p, if p ∈ db.stored then 1 else 0, true)
      | none => (removed db p, if p ∈ db.stored then 1 else 0, false) := by
  have hCount : ((deleteOne (byCharacter p) db.characters).2 : Int) =
      if p ∈ db.stored then 1 else 0 := by
    rw [deleteOne_count]
    split <;> rfl
  unfold callback
  rw [updateOne_pull, if_pos h]
  rcases place with _ | _ | _ | _ | _ | _
  · exact congrArg (fun n : Int => (removed db p, n, false)) hCount
  · rfl
  · rfl
  · rfl
  · rfl
  · exact congrArg (fun n : Int => (removed db p, n, true)) hCount

-- ---------------------------------------------------------------------------
-- The attempts of a call
-- ---------------------------------------------------------------------------

variable {retried : List Place} {last : Option (Place × Strike)}

/-- How a struck call ends: a crash does not return, an exception is caught. -/
def Strike.ending : Strike → Ending
  | .exception => .returned (-1)
  | .crash => .crashed

theorem Strike.ending_ne (strike : Strike) : strike.ending ≠ .returned 1 := by
  cases strike <;> decide

theorem withTransaction_retried {place : Place} {db' : Database} {code' : Int}
    (h : callback db code p.1 p.2 (some place) = (db', code', true)) :
    withTransaction p.1 p.2 db code (place :: retried) last =
      withTransaction p.1 p.2 db' code' retried last := by
  rw [withTransaction, h]

theorem withTransaction_passed {place : Place} {db' : Database} {code' : Int}
    (h : callback db code p.1 p.2 (some place) = (db', code', false)) :
    withTransaction p.1 p.2 db code (place :: retried) last = (db', .returned code') := by
  rw [withTransaction, h]

theorem withTransaction_ended {db' : Database} {code' : Int}
    (h : callback db code p.1 p.2 (last.map Prod.fst) = (db', code', false)) :
    withTransaction p.1 p.2 db code [] last = (db', .returned code') := by
  rw [withTransaction, h]

theorem withTransaction_struck {place : Place} {strike : Strike} {db' : Database} {code' : Int}
    (h : callback db code p.1 p.2 (some place) = (db', code', true)) :
    withTransaction p.1 p.2 db code [] (some (place, strike)) = (db', strike.ending) := by
  rw [withTransaction, Option.map_some, h]
  cases strike <;> rfl

/-- Behind the removal nothing changes any more. -/
theorem withTransaction_unlisted (code : Int) (h : ¬ Listed db p) (retried : List Place)
    (last : Option (Place × Strike)) :
    (withTransaction p.1 p.2 db code retried last).1 = db ∧
      ((withTransaction p.1 p.2 db code retried last).2 = .returned 1 ↔
        code = 1 ∧ Ends retried last) := by
  induction retried with
  | nil =>
    rcases last with _ | ⟨_ | _ | _ | _ | _, strike⟩
    case none | some.beforeDelete | some.afterDelete =>
      rw [withTransaction_ended (callback_unlisted h _)]
      simp [Ends]
    case some.beforeUpdate | some.afterUpdate | some.commit =>
      rw [withTransaction_struck (callback_unlisted h _)]
      simp [Ends, strike.ending_ne]
  | cons place retried ih =>
    rcases place with _ | _ | _ | _ | _
    case beforeUpdate | afterUpdate | commit =>
      rw [withTransaction_retried (callback_unlisted h _)]
      exact ih
    case beforeDelete | afterDelete =>
      rw [withTransaction_passed (callback_unlisted h _)]
      simp [Ends]

/-- Behind an update that took effect, only the return makes the call whole. -/
theorem whole_behind_iff {db' : Database} (h : Listed db p) (h' : ¬ Listed db' p) :
    ((withTransaction p.1 p.2 db' code retried last).2 ≠ .returned 1 →
      (withTransaction p.1 p.2 db' code retried last).1 = db) ↔ code = 1 ∧ Ends retried last := by
  obtain ⟨hSame, hReturned⟩ := withTransaction_unlisted code h' retried last
  have hChanged : db' ≠ db := by
    rintro rfl
    exact h' h
  rw [hSame, ← hReturned]
  exact ⟨fun hWhole => not_not.mp fun hNot => hChanged (hWhole hNot), fun hOne hNot =>
    absurd hOne hNot⟩

theorem whole_ended_iff {db' : Database} {ending : Ending} (h : Listed db p)
    (h' : ¬ Listed db' p) : (ending ≠ .returned 1 → db' = db) ↔ ending = .returned 1 := by
  have hChanged : db' ≠ db := by
    rintro rfl
    exact h' h
  exact ⟨fun hWhole => not_not.mp fun hNot => hChanged (hWhole hNot), fun hOne hNot =>
    absurd hOne hNot⟩

/-- **The attempts**, for a character that is listed. -/
theorem withTransaction_whole_iff (h : Listed db p) (retried : List Place)
    (last : Option (Place × Strike)) :
    ((withTransaction p.1 p.2 db 0 retried last).2 ≠ .returned 1 →
      (withTransaction p.1 p.2 db 0 retried last).1 = db) ↔
      Whole (p ∈ db.stored) retried last := by
  have hPulled : ¬ Listed (pulled db p) p := not_listed_pulled
  have hRemoved : ¬ Listed (removed db p) p := not_listed_pulled
  induction retried with
  | nil =>
    rcases last with _ | ⟨_ | _ | _ | _ | _, strike⟩
    case none =>
      rw [withTransaction_ended (callback_listed h _), whole_ended_iff h hRemoved]
      by_cases hStored : p ∈ db.stored
      · simp [Whole, hStored]
      · simp [Whole, hStored]
    case some.beforeUpdate =>
      rw [withTransaction_struck (callback_listed h _)]
      simp [Whole]
    case some.afterUpdate | some.beforeDelete =>
      rw [withTransaction_struck (callback_listed h _), whole_ended_iff h hPulled]
      simp [Whole, strike.ending_ne]
    case some.afterDelete | some.commit =>
      rw [withTransaction_struck (callback_listed h _), whole_ended_iff h hRemoved]
      simp [Whole, strike.ending_ne]
  | cons place retried ih =>
    rcases place with _ | _ | _ | _ | _
    case beforeUpdate =>
      rw [withTransaction_retried (callback_listed h _)]
      exact ih
    case afterUpdate | beforeDelete =>
      rw [withTransaction_retried (callback_listed h _), whole_behind_iff h hPulled]
      simp [Whole]
    case afterDelete =>
      rw [withTransaction_retried (callback_listed h _), whole_behind_iff h hRemoved]
      simp [Whole]
    case commit =>
      -- the deletion has set the result; a second attempt finds nothing to do
      rw [withTransaction_retried (callback_listed h _), whole_behind_iff h hRemoved]
      by_cases hStored : p ∈ db.stored
      · simp [Whole, hStored]
      · simp [Whole, hStored]

end

/-- **Removal.** It is all or nothing exactly if it does not get to the transaction, the account
does not list the character, or the attempts leave it whole. -/
theorem removal_whole_iff (f : Failures) (db : Database) (accountName characterName : Bytes) :
    AllOrNothing f db accountName characterName ↔
      f.client = false ∨ accountName = characterName ∨ f.session ≠ none ∨
        ¬ Listed db (accountName, characterName) ∨
          Whole ((accountName, characterName) ∈ db.stored) f.retried f.last := by
  unfold AllOrNothing removeCharacter
  by_cases hRefused : f.client = false ∨ accountName = characterName
  · rw [if_pos hRefused]
    exact iff_of_true (fun _ => rfl) (hRefused.imp_right Or.inl)
  · rw [if_neg hRefused]
    rw [not_or] at hRefused
    rcases hSession : f.session with _ | _ | _
    case some.exception | some.crash => simp
    case none =>
      by_cases hListed : Listed db (accountName, characterName)
      · refine (withTransaction_whole_iff hListed f.retried f.last).trans ?_
        simp [hRefused.1, hRefused.2, hListed]
      · have hSame := (withTransaction_unlisted 0 hListed f.retried f.last).1
        exact iff_of_true (fun _ => hSame) (by simp [hListed])

/-- Nothing goes wrong. -/
def undisturbed : Failures := ⟨true, none, [], none⟩

/-- Without failures the call is `Database.removeCharacter`. -/
theorem removeCharacter_undisturbed (db : Database) (accountName characterName : Bytes) :
    removeCharacter undisturbed db accountName characterName =
      ((db.removeCharacter accountName characterName).1,
        .returned (db.removeCharacter accountName characterName).2) := by
  unfold removeCharacter Database.removeCharacter
  by_cases hName : accountName = characterName
  · rw [if_pos (Or.inr hName), if_pos hName]
  · rw [if_neg (by simp [undisturbed, hName]), if_neg hName]
    show withTransaction accountName characterName db 0 [] none = _
    have hUpdate := updateOne_pull db (accountName, characterName)
    dsimp only at hUpdate
    simp only [withTransaction, callback, hUpdate]
    by_cases hListed : Listed db (accountName, characterName)
    · simp [hListed]
    · simp [hListed]

/-- An account with a character. -/
def oneCharacter : Database :=
  (((Database.empty.addNewAccount (literal "a") (literal "p") [] 0).1).addNewCharacter
    ⟨⟨50, literal "a", []⟩, literal "hero", true, 100112, 100011⟩).1

/-- The process crashes between the two operations. -/
theorem removal_half_done : ¬ ∀ f db accountName characterName,
    AllOrNothing f db accountName characterName := by
  intro hAll
  have hSame := hAll ⟨true, none, [], some (.beforeDelete, .crash)⟩ oneCharacter (literal "a")
    (literal "hero") (by decide)
  exact absurd hSame (by decide)

end Removal

end WarringServer.DBServer
