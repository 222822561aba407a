import WarringServer.DBServer.Database
import WarringServer.Lib.TestAndSet

/-!
# Readers — requests handled by several threads at a time

`Database` has the operations of `mDB` as a single thread runs them. Several readers share
the database, and an operation is not atomic: `addNewCharacter` and `updateCharacter` look for
the character before they begin their transaction, `removeCharacter` writes twice
without a session. Here an operation is cut where the database can be seen by another
thread. A transaction and `find_one_and_update` are one step.

* `Query.step` — the next step of an operation, which may fail;
* `Query.alone` — without failures and other threads between, the steps are the operation
  of `Database`;
* `Readers.step` — any number of threads, one for each request in progress.

`Readers.history` records, for the proofs, what happened to the flag `on_off` of accounts.
-/

namespace WarringServer.DBServer

open Message Collection MakeDocHelper Run

-- ---------------------------------------------------------------------------
-- Operations in steps
-- ---------------------------------------------------------------------------

/-- What a handler calls on `mDB` to change the database. -/
inductive Query where
  | addNewAccount (accountName password address : Bytes)
  | matchAccountAndUpdateLoginState (accountName password : Bytes)
  | addNewCharacter (newCharacter : LoginCharacterRequestMessage)
  | removeCharacter (accountName characterName : Bytes)
  | updateCharacter (characterInfo : CharacterInfo) (last : Bool)
  deriving DecidableEq, Repr

/-- Where an operation stands. -/
inductive Stage where
  | begin
  /-- `find_one` has let it pass, its transaction is next. -/
  | found
  /-- `removeCharacter` has changed the account, `delete_one` is next. -/
  | pulled
  | returned (result : Int)
  /-- `find_one` has thrown, outside of any `try`. -/
  | thrown
  deriving DecidableEq, Repr

/-- How a step ends. A `mongocxx::exception` can come before or after the effect. -/
inductive Outcome where
  | done
  | failed (effect : Bool)
  deriving DecidableEq, Repr

def Outcome.effective : Outcome → Bool
  | .done => true
  | .failed effect => effect

/-- A step in a `try` block whose handler returns -1. -/
def Outcome.caught (outcome : Outcome) (db : Database) (r : Database × Int) : Database × Stage :=
  (if outcome.effective then r.1 else db, .returned (if outcome = .done then r.2 else -1))

/-- `find_one` of the account that lists the character; `next` is where a call goes. -/
def Outcome.findOne (outcome : Outcome) (db : Database) (accountName characterName : Bytes)
    (next : Bool → Stage) : Database × Stage :=
  (db, if outcome = .done then
      next (db.accounts.find? (makeDocAccountAndCharacter accountName characterName)).isSome
    else
      .thrown)

namespace Query

/-- The next step. An operation that has returned stays as it is. -/
def step (q : Query) (outcome : Outcome) (now : Nat) (db : Database) (stage : Stage) :
    Database × Stage :=
  match q, stage with
  | .addNewAccount accountName password address, .begin =>
    outcome.caught db (db.addNewAccount accountName password address now)
  | .matchAccountAndUpdateLoginState accountName password, .begin =>
    outcome.caught db (db.matchAccountAndUpdateLoginState accountName password now)
  | .addNewCharacter newCharacter, .begin =>
    outcome.findOne db newCharacter.account newCharacter.characterName fun found =>
      if found then .returned 0 else .found
  | .addNewCharacter newCharacter, .found =>
    outcome.caught db (match db.insertNewCharacter newCharacter with
      | some db => (db, 1)
      | none => (db, 0))
  | .removeCharacter accountName characterName, .begin =>
    if accountName = characterName then
      (db, .returned (-1))
    else
      match updateOne accountIndexes (byAccount accountName)
          (makeDocAccountRemoveCharacter characterName) db.accounts with
      | none => (db, .returned (-1))
      | some (accounts, modified) =>
        let r := outcome.caught db ({ db with accounts := accounts }, 0)
        (r.1, if outcome = .done ∧ modified = 1 then .pulled else r.2)
  | .removeCharacter accountName characterName, .pulled =>
    let (characters, deleted) := deleteOne (byCharacter (accountName, characterName)) db.characters
    outcome.caught db ({ db with characters := characters }, deleted)
  | .updateCharacter characterInfo _, .begin =>
    outcome.findOne db characterInfo.account characterInfo.name fun found =>
      if found then .found else .returned 0
  | .updateCharacter characterInfo last, .found =>
    outcome.caught db (match db.setCharacter characterInfo last now with
      | some db => (db, 1)
      | none => (db, -1))
  | _, stage => (db, stage)

/-- The operation of `Database`. -/
def call (q : Query) (now : Nat) (db : Database) : Database × Int :=
  match q with
  | .addNewAccount accountName password address => db.addNewAccount accountName password address now
  | .matchAccountAndUpdateLoginState accountName password =>
    db.matchAccountAndUpdateLoginState accountName password now
  | .addNewCharacter newCharacter => db.addNewCharacter newCharacter
  | .removeCharacter accountName characterName => db.removeCharacter accountName characterName
  | .updateCharacter characterInfo last => db.updateCharacter characterInfo last now

/-- **Alone.** Two steps in a row that do not fail are the operation of `Database`. -/
theorem alone (q : Query) (now : Nat) (db : Database) :
    q.step .done now (q.step .done now db .begin).1 (q.step .done now db .begin).2 =
      ((q.call now db).1, .returned (q.call now db).2) := by
  cases q with
  | addNewAccount accountName password address => rfl
  | matchAccountAndUpdateLoginState accountName password => rfl
  | addNewCharacter newCharacter =>
    simp only [call, Database.addNewCharacter]
    cases hFound : db.accounts.find?
        (makeDocAccountAndCharacter newCharacter.account newCharacter.characterName) with
    | none =>
      cases hCommit : db.insertNewCharacter newCharacter with
      | none => simp [step, Outcome.findOne, Outcome.caught, Outcome.effective, hFound, hCommit]
      | some db' => simp [step, Outcome.findOne, Outcome.caught, Outcome.effective, hFound, hCommit]
    | some d => simp [step, Outcome.findOne, hFound]
  | removeCharacter accountName characterName =>
    simp only [call, Database.removeCharacter]
    by_cases hName : accountName = characterName
    · simp [step, hName]
    · cases hUpdate : updateOne accountIndexes (byAccount accountName)
          (makeDocAccountRemoveCharacter characterName) db.accounts with
      | none => simp [step, hName, hUpdate]
      | some r =>
        by_cases hModified : r.2 = 1
        · simp [step, Outcome.caught, Outcome.effective, hName, hUpdate, hModified]
        · simp [step, Outcome.caught, Outcome.effective, hName, hUpdate, hModified]
  | updateCharacter characterInfo last =>
    simp only [call, Database.updateCharacter]
    cases hFound : db.accounts.find?
        (makeDocAccountAndCharacter characterInfo.account characterInfo.name) with
    | none => simp [step, Outcome.findOne, hFound]
    | some d =>
      cases hCommit : db.setCharacter characterInfo last now with
      | none => simp [step, Outcome.findOne, Outcome.caught, Outcome.effective, hFound, hCommit]
      | some db' => simp [step, Outcome.findOne, Outcome.caught, Outcome.effective, hFound, hCommit]

end Query

-- ---------------------------------------------------------------------------
-- Flags
-- ---------------------------------------------------------------------------

namespace Query

/-- The filter of `matchAccountAndUpdateLoginState`. -/
def byPassword (accountName password : Bytes) (d : AccountDocument) : Bool :=
  d.account = accountName ∧ d.password = password

/-- A login is about to look at the database, and its account and password are there. -/
def matching (q : Query) (db : Database) (stage : Stage) : Bool :=
  match q, stage with
  | .matchAccountAndUpdateLoginState accountName password, .begin =>
    db.accounts.any (byPassword accountName password)
  | _, _ => false

/-- What the next step does to the flag `on_off` of an account, if it has an effect. -/
def flagOps (q : Query) (outcome : Outcome) (db : Database) (stage : Stage) :
    List (TestAndSet.Op Bytes) :=
  match q, stage with
  | .matchAccountAndUpdateLoginState accountName password, .begin =>
    if outcome.effective then
      ((db.accounts.find? (byPassword accountName password)).map fun d =>
        .take accountName d.onOff).toList
    else
      []
  | .updateCharacter characterInfo true, .found =>
    if outcome.effective then
      ((db.accounts.find? (byAccount characterInfo.account)).map fun _ =>
        .drop characterInfo.account).toList
    else
      []
  | _, _ => []

end Query

-- ---------------------------------------------------------------------------
-- Threads
-- ---------------------------------------------------------------------------

/-- A reader at work on a request. -/
structure Thread where
  query : Query
  stage : Stage
  /-- What the login of this thread looked for was there. -/
  matched : Bool
  deriving DecidableEq, Repr

/-- The database, one thread for each request that has come, and the operations on flags
that have taken effect, with their threads. -/
structure Readers where
  db : Database
  threads : List Thread
  history : List (Nat × TestAndSet.Op Bytes)
  deriving Repr

inductive ReaderEvent where
  /-- Some thread begins with a request. -/
  | request (q : Query)
  /-- The thread that has the request takes its next step. -/
  | step (i : Nat) (outcome : Outcome) (now : Nat)
  deriving DecidableEq, Repr

def Thread.step (t : Thread) (outcome : Outcome) (now : Nat) (db : Database) : Thread :=
  { t with
    stage := (t.query.step outcome now db t.stage).2
    matched := t.matched || t.query.matching db t.stage }

namespace Readers

/-- Before the first request. -/
def start (db : Database) : Readers := ⟨db, [], []⟩

def step (s : Readers) : ReaderEvent → Readers
  | .request q => { s with threads := s.threads ++ [⟨q, .begin, false⟩] }
  | .step i outcome now =>
    match s.threads[i]? with
    | none => s
    | some t =>
      { db := (t.query.step outcome now s.db t.stage).1
        threads := s.threads.set i (t.step outcome now s.db)
        history := s.history ++ (t.query.flagOps outcome s.db t.stage).map fun op => (i, op) }

variable {s : Readers}

theorem step_some {i : Nat} {t : Thread} (h : s.threads[i]? = some t) (outcome : Outcome)
    (now : Nat) :
    s.step (.step i outcome now) =
      { db := (t.query.step outcome now s.db t.stage).1
        threads := s.threads.set i (t.step outcome now s.db)
        history := s.history ++ (t.query.flagOps outcome s.db t.stage).map fun op => (i, op) } := by
  rw [step, h]

theorem step_none {i : Nat} (h : s.threads[i]? = none) (outcome : Outcome) (now : Nat) :
    s.step (.step i outcome now) = s := by
  rw [step, h]

/-- A thread after the step of thread `i`: that one, or one that has not moved. -/
theorem getElem_set {threads : List Thread} {i j : Nat} {t t' : Thread}
    (h : (threads.set i t')[j]? = some t) : (j = i ∧ t = t') ∨ (j ≠ i ∧ threads[j]? = some t) := by
  rw [List.getElem?_set] at h
  split at h
  · rename_i hEq
    split at h
    · exact Or.inl ⟨hEq.symm, (Option.some.inj h).symm⟩
    · cases h
  · rename_i hNe
    exact Or.inr ⟨fun hEq => hNe hEq.symm, h⟩

/-- A thread after a request has come: the new one, or an old one. -/
theorem getElem_append {threads : List Thread} {j : Nat} {t t' : Thread}
    (h : (threads ++ [t'])[j]? = some t) :
    (j = threads.length ∧ t = t') ∨ threads[j]? = some t := by
  rw [List.getElem?_append] at h
  split at h
  · exact Or.inr h
  · rename_i hLast
    rw [List.getElem?_singleton] at h
    split at h
    · rename_i hEq
      exact Or.inl ⟨by omega, (Option.some.inj h).symm⟩
    · cases h

end Readers

end WarringServer.DBServer
