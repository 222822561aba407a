import WarringServer.DBServer.Readers

/-!
# Unique names — `addNewCharacter` in several readers

No account may list a character name twice. `addNewCharacter` looks for the name before its
transaction; the unique index on `characters.character_name` would catch a name that has come in
between, but it keeps the names of two accounts apart, not those in one array.

* `Database.insertNewCharacter_spec`, `Database.insertNewCharacter_of_lists` — what the transaction
  does for a name that the account does not list, and for one that it does;
* `names_once_iff` — the names stay unique exactly if no transaction takes effect on
  an account that lists the name by then.
-/

namespace WarringServer.DBServer

open Message Collection MakeDocHelper Run

-- ---------------------------------------------------------------------------
-- The transaction
-- ---------------------------------------------------------------------------

namespace Database

/-- The account exists. -/
def HasAccount (db : Database) (accountName : Bytes) : Prop :=
  accountName ∈ db.accounts.map AccountDocument.account

instance (db : Database) : DecidablePred db.HasAccount :=
  fun accountName => inferInstanceAs (Decidable (accountName ∈ _))

/-- No array holds a name twice. -/
def NamesNodup (db : Database) : Prop :=
  ∀ d ∈ db.accounts, (d.characters.map CharacterBaseInfo.characterName).Nodup

instance : DecidablePred NamesNodup :=
  fun db => inferInstanceAs (Decidable (∀ d ∈ db.accounts, _))

variable {db db' : Database} {newCharacter : LoginCharacterRequestMessage}

theorem account_unique (hUnique : Unique accountIndexes db.accounts) {d d' : AccountDocument}
    (hd : d ∈ db.accounts) (hd' : d' ∈ db.accounts) (h : d.account = d'.account) : d = d' :=
  List.inj_on_of_nodup_map (nodup_of_unique (by simp [accountIndexes]) hUnique) hd hd' h

/-- The transaction pushes the character to the array of its account. -/
theorem insertNewCharacter_split (hAccount : db.HasAccount newCharacter.account)
    (h : db.insertNewCharacter newCharacter = some db') :
    ∃ before d after, db.accounts = before ++ d :: after ∧ d.account = newCharacter.account ∧
      db'.accounts = before ++ makeDocAccountInsertNewCharacter newCharacter d :: after := by
  simp only [insertNewCharacter, Option.bind_eq_bind, Option.bind_eq_some_iff, Option.pure_def,
    Option.some.injEq] at h
  obtain ⟨⟨accounts, n⟩, hUpdate, characters, -, rfl⟩ := h
  rcases updateOne_cases hUpdate with ⟨hNone, -⟩ | ⟨before, d, after, hSplit, -, hd, -, hResult⟩
  · obtain ⟨d, hd, hName⟩ := List.mem_map.mp hAccount
    have hOther := hNone d hd
    rw [byAccount_iff.mpr hName] at hOther
    cases hOther
  · exact ⟨before, d, after, hSplit, byAccount_iff.mp hd, congrArg Prod.fst hResult⟩

theorem unique_insertNewCharacter (hUnique : Unique accountIndexes db.accounts)
    (h : db.insertNewCharacter newCharacter = some db') : Unique accountIndexes db'.accounts := by
  simp only [insertNewCharacter, Option.bind_eq_bind, Option.bind_eq_some_iff, Option.pure_def,
    Option.some.injEq] at h
  obtain ⟨⟨accounts, n⟩, hUpdate, characters, -, rfl⟩ := h
  exact updateOne_unique hUnique hUpdate

theorem names_push (d : AccountDocument) :
    (makeDocAccountInsertNewCharacter newCharacter d).characters.map
        CharacterBaseInfo.characterName =
      d.characters.map CharacterBaseInfo.characterName ++ [newCharacter.characterName] := by
  rw [makeDocAccountInsertNewCharacter, List.map_append]
  rfl

theorem lists_iff_mem {p : CharacterPair} :
    db.Lists p ↔ ∃ d ∈ db.accounts, d.account = p.1 ∧
      p.2 ∈ d.characters.map CharacterBaseInfo.characterName := by
  simp only [Lists, makeDocAccountAndCharacter_iff, List.mem_map]

/-- **The transaction**, for a name that the account does not list. -/
theorem insertNewCharacter_spec (hUnique : Unique accountIndexes db.accounts)
    (hAccount : db.HasAccount newCharacter.account)
    (h : db.insertNewCharacter newCharacter = some db') :
    db'.accounts.map AccountDocument.account = db.accounts.map AccountDocument.account ∧
      (∀ p, db'.Lists p ↔ db.Lists p ∨ p = (newCharacter.account, newCharacter.characterName)) ∧
      (db.NamesNodup →
        (db'.NamesNodup ↔ ¬ db.Lists (newCharacter.account, newCharacter.characterName))) := by
  obtain ⟨before, d, after, hSplit, hName, hSplit'⟩ := insertNewCharacter_split hAccount h
  have hLists : db.Lists (newCharacter.account, newCharacter.characterName) ↔
      newCharacter.characterName ∈ d.characters.map CharacterBaseInfo.characterName := by
    rw [lists_iff_mem]
    constructor
    · intro hListed
      obtain ⟨d', hd', hAccount', hNames⟩ := hListed
      rwa [account_unique hUnique hd' (hSplit ▸ List.mem_append_right _ List.mem_cons_self)
        (hAccount'.trans hName.symm)] at hNames
    · intro hNames
      exact ⟨d, hSplit ▸ List.mem_append_right _ List.mem_cons_self, hName, hNames⟩
  refine ⟨?_, ?_, ?_⟩
  · rw [hSplit, hSplit', List.map_append, List.map_append, List.map_cons, List.map_cons]
    rfl
  · intro p
    simp only [lists_iff_mem, hSplit, hSplit', List.mem_append, List.mem_cons, or_and_right,
      exists_or, exists_eq_left, names_push]
    have hPush : (makeDocAccountInsertNewCharacter newCharacter d).account =
        newCharacter.account := hName
    rw [hPush, hName, Prod.ext_iff]
    grind
  · intro hNames
    rw [hLists]
    have hOld := hNames d (hSplit ▸ List.mem_append_right _ List.mem_cons_self)
    constructor
    · intro hNew hMem
      have hPushed := hNew (makeDocAccountInsertNewCharacter newCharacter d)
        (hSplit' ▸ List.mem_append_right _ List.mem_cons_self)
      rw [names_push, List.nodup_append] at hPushed
      exact hPushed.2.2 _ hMem _ List.mem_cons_self rfl
    · intro hNot d' hd'
      rw [hSplit', List.mem_append, List.mem_cons] at hd'
      rcases hd' with hd' | rfl | hd'
      · exact hNames d' (hSplit ▸ List.mem_append_left _ hd')
      · rw [names_push]
        exact hOld.append (List.nodup_singleton _) (List.disjoint_singleton.mpr hNot)
      · exact hNames d' (hSplit ▸ List.mem_append_right _ (List.mem_cons_of_mem _ hd'))

/-- The index does not stop a name that the array has already. -/
theorem insertNewCharacter_of_lists (hUnique : Unique accountIndexes db.accounts)
    (hListed : db.Lists (newCharacter.account, newCharacter.characterName)) :
    ∃ db', db.insertNewCharacter newCharacter = some db' := by
  obtain ⟨d, hd, hName, hNames⟩ := lists_iff_mem.mp hListed
  have hFound : db.accounts.find? (byAccount newCharacter.account) = some d := by
    cases hFind : db.accounts.find? (byAccount newCharacter.account) with
    | none =>
      have hOther := none_of_find hFind d hd
      rw [byAccount_iff.mpr hName] at hOther
      cases hOther
    | some d' =>
      have hName' := byAccount_iff.mp (List.find?_some hFind)
      rw [account_unique hUnique (List.mem_of_find?_eq_some hFind) hd (hName'.trans hName.symm)]
  have hAdmits : admits accountIndexes
      (db.accounts.eraseP (byAccount newCharacter.account)) (some d)
      (makeDocAccountInsertNewCharacter newCharacter d) = true := by
    refine admits_of_subset ?_
    intro keys hKeys k hk
    rcases List.mem_pair.mp hKeys with rfl | rfl
    · exact hk
    · dsimp only at hk ⊢
      rw [names_push, List.mem_append, List.mem_singleton] at hk
      rcases hk with hk | rfl
      · exact hk
      · exact hNames
  obtain ⟨r, hUpdate⟩ : ∃ r, updateOne accountIndexes (byAccount newCharacter.account)
      (makeDocAccountInsertNewCharacter newCharacter) db.accounts = some r := by
    rw [updateOne, hFound]
    dsimp only
    rw [if_pos hAdmits]
    exact ⟨_, rfl⟩
  have hInsert : insertOne characterIndexes (makeDocNewCharacter newCharacter) db.characters =
      some (db.characters ++ [makeDocNewCharacter newCharacter]) := if_pos rfl
  refine ⟨⟨r.1, db.characters ++ [makeDocNewCharacter newCharacter]⟩, ?_⟩
  simp [insertNewCharacter, hUpdate, hInsert]

end Database

-- ---------------------------------------------------------------------------
-- One request
-- ---------------------------------------------------------------------------

/-- The call of `addNewCharacter` for this character has returned 1. -/
def Thread.Created (t : Thread) (p : CharacterPair) : Prop :=
  t.stage = .returned 1 ∧ ∃ newCharacter, t.query = .addNewCharacter newCharacter ∧
    (newCharacter.account, newCharacter.characterName) = p

/-- The thread is about to commit a character that is listed by then. -/
def Thread.CommitsTwice (t : Thread) (outcome : Outcome) (db : Database) : Prop :=
  match t.query with
  | .addNewCharacter newCharacter => t.stage = .found ∧ outcome.effective = true ∧
    db.Lists (newCharacter.account, newCharacter.characterName)
  | _ => False

instance (t : Thread) (outcome : Outcome) (db : Database) : Decidable (t.CommitsTwice outcome db) :=
  match t with
  | ⟨.addNewCharacter _, _, _⟩ => inferInstanceAs (Decidable (_ ∧ _ ∧ _))
  | ⟨.addNewAccount .., _, _⟩ | ⟨.matchAccountAndUpdateLoginState .., _, _⟩
  | ⟨.removeCharacter .., _, _⟩ | ⟨.updateCharacter .., _, _⟩ => isFalse id

namespace Query

/-- **One step of `addNewCharacter`.** The transaction takes effect, or the database stays as it
is and the call does not come to return 1. -/
theorem step_addNewCharacter (newCharacter : LoginCharacterRequestMessage) (outcome : Outcome)
    (now : Nat) (db : Database) (stage : Stage) :
    let r := (addNewCharacter newCharacter).step outcome now db stage
    (stage = .found ∧ outcome.effective = true ∧
        db.insertNewCharacter newCharacter = some r.1) ∨
      (r.1 = db ∧ (r.2 = .returned 1 → stage = .returned 1) ∧
        ¬ (stage = .found ∧ outcome.effective = true ∧
          ∃ db', db.insertNewCharacter newCharacter = some db')) := by
  intro r
  rcases stage with _ | _ | _ | result | _
  case begin =>
    refine Or.inr ⟨rfl, fun hReturned => ?_, by simp⟩
    simp only [r, step, Outcome.findOne] at hReturned
    split at hReturned
    · split at hReturned
      · cases hReturned
      · cases hReturned
    · cases hReturned
  case found =>
    rcases hCommit : db.insertNewCharacter newCharacter with _ | db'
    · refine Or.inr ⟨by simp [r, step, Outcome.caught, hCommit], fun hReturned => ?_, by simp⟩
      simp only [r, step, Outcome.caught, hCommit] at hReturned
      split at hReturned
      · cases hReturned
      · cases hReturned
    · rcases hEffect : outcome.effective with _ | _
      · refine Or.inr ⟨by simp [r, step, Outcome.caught, hEffect], fun hReturned => ?_, by simp⟩
        rcases outcome with _ | effect
        · cases hEffect
        · simp [r, step, Outcome.caught] at hReturned
      · exact Or.inl ⟨rfl, rfl, by simp [r, step, Outcome.caught, hEffect, hCommit]⟩
  all_goals exact Or.inr ⟨rfl, id, by simp⟩

end Query

-- ---------------------------------------------------------------------------
-- Any number of requests
-- ---------------------------------------------------------------------------

namespace Readers

/-- The property: one call at most has returned 1 for a character, and no array holds a name
twice. -/
structure NamesOnce (s : Readers) : Prop where
  created_once : ∀ (p : CharacterPair) (i j : Nat) (t t' : Thread), s.threads[i]? = some t →
    s.threads[j]? = some t' → t.Created p → t'.Created p → i = j
  names_once : s.db.NamesNodup

/-- No transaction takes effect on an account that lists the name. -/
def Unlisted (s : Readers) : ReaderEvent → Prop
  | .request _ => True
  | .step i outcome _ => ∀ t ∈ s.threads[i]?, ¬ t.CommitsTwice outcome s.db

instance (s : Readers) : ∀ e, Decidable (s.Unlisted e)
  | .request _ => isTrue trivial
  | .step i outcome _ =>
    inferInstanceAs (Decidable (∀ t ∈ s.threads[i]?, ¬ t.CommitsTwice outcome s.db))

/-- All requests are to create a character for an account that exists. -/
def CreatesFor (db : Database) : ReaderEvent → Prop
  | .request q => ∃ newCharacter, q = .addNewCharacter newCharacter ∧
    db.HasAccount newCharacter.account
  | .step _ _ _ => True

/-- What a run of such requests keeps. -/
structure Creating (s : Readers) (es : List ReaderEvent) : Prop where
  unique : Unique accountIndexes s.db.accounts
  requests : ∀ (i : Nat) (t : Thread), s.threads[i]? = some t → ∃ newCharacter,
    t.query = .addNewCharacter newCharacter ∧ s.db.HasAccount newCharacter.account
  events : ∀ e ∈ es, CreatesFor s.db e
  listed : ∀ (i : Nat) (t : Thread) (p : CharacterPair), s.threads[i]? = some t → t.Created p →
    s.db.Lists p

variable {s : Readers} {es : List ReaderEvent}

theorem createsFor_of_accounts {db db' : Database}
    (h : db'.accounts.map AccountDocument.account = db.accounts.map AccountDocument.account)
    {e : ReaderEvent} (he : CreatesFor db e) : CreatesFor db' e := by
  rcases e with q | ⟨i, outcome, now⟩
  · obtain ⟨newCharacter, hq, hAccount⟩ := he
    exact ⟨newCharacter, hq, by rw [Database.HasAccount, h]; exact hAccount⟩
  · trivial

theorem Creating.step {e : ReaderEvent} (h : Creating s (e :: es)) : Creating (s.step e) es := by
  have hEvents : ∀ e ∈ es, CreatesFor s.db e := fun e he => h.events e (List.mem_cons_of_mem _ he)
  rcases e with q | ⟨i, outcome, now⟩
  · refine ⟨h.unique, ?_, hEvents, ?_⟩
    · intro j t ht
      rcases getElem_append ht with ⟨-, rfl⟩ | hOld
      · exact h.events (.request q) List.mem_cons_self
      · exact h.requests j t hOld
    · intro j t p ht hCreated
      rcases getElem_append ht with ⟨-, rfl⟩ | hOld
      · cases hCreated.1
      · exact h.listed j t p hOld hCreated
  · rcases ht : s.threads[i]? with _ | t
    · rw [step_none ht]
      exact ⟨h.unique, h.requests, hEvents, h.listed⟩
    · rw [step_some ht]
      obtain ⟨newCharacter, hQuery, hAccount⟩ := h.requests i t ht
      rcases Query.step_addNewCharacter newCharacter outcome now s.db t.stage with
        ⟨hFound, -, hCommit⟩ | ⟨hSame, hReturned, -⟩
      · -- the transaction
        rw [← hQuery] at hCommit
        obtain ⟨hAccounts, hLists, -⟩ := Database.insertNewCharacter_spec h.unique hAccount hCommit
        refine ⟨Database.unique_insertNewCharacter h.unique hCommit, ?_,
          fun e he => createsFor_of_accounts hAccounts (hEvents e he), ?_⟩
        · intro j t' ht'
          have hRequest : ∃ t'', s.threads[j]? = some t'' ∧ t''.query = t'.query := by
            rcases getElem_set ht' with ⟨rfl, rfl⟩ | ⟨-, hOld⟩
            · exact ⟨t, ht, rfl⟩
            · exact ⟨t', hOld, rfl⟩
          obtain ⟨t'', ht'', hSameQuery⟩ := hRequest
          obtain ⟨newCharacter', hQuery', hAccount'⟩ := h.requests j t'' ht''
          refine ⟨newCharacter', hSameQuery ▸ hQuery', ?_⟩
          rw [Database.HasAccount, hAccounts]
          exact hAccount'
        · intro j t' p ht' hCreated
          rw [hLists]
          rcases getElem_set ht' with ⟨-, rfl⟩ | ⟨-, hOld⟩
          · obtain ⟨-, newCharacter', hQuery', rfl⟩ := hCreated
            obtain rfl : newCharacter' = newCharacter :=
              Query.addNewCharacter.inj (hQuery'.symm.trans hQuery)
            exact Or.inr rfl
          · exact Or.inl (h.listed j t' p hOld hCreated)
      · -- the database stays
        rw [← hQuery] at hSame hReturned
        rw [hSame]
        refine ⟨h.unique, ?_, hEvents, ?_⟩
        · intro j t' ht'
          rcases getElem_set ht' with ⟨-, rfl⟩ | ⟨-, hOld⟩
          · exact ⟨newCharacter, hQuery, hAccount⟩
          · exact h.requests j t' hOld
        · intro j t' p ht' hCreated
          rcases getElem_set ht' with ⟨-, rfl⟩ | ⟨-, hOld⟩
          · exact h.listed i t p ht ⟨hReturned hCreated.1, hCreated.2⟩
          · exact h.listed j t' p hOld hCreated

/-- Thread `i` has moved, and nobody else has created what it may have. -/
theorem created_once_set {i : Nat} {t' : Thread} (hOnce : s.NamesOnce)
    (hOther : ∀ p, t'.Created p → ∀ j u, j ≠ i → s.threads[j]? = some u → ¬ u.Created p) :
    ∀ (p : CharacterPair) (j k : Nat) (u v : Thread), (s.threads.set i t')[j]? = some u →
      (s.threads.set i t')[k]? = some v → u.Created p → v.Created p → j = k := by
  intro p j k u v hj hk hu hv
  rcases getElem_set hj with ⟨rfl, rfl⟩ | ⟨hNe, hOldJ⟩
  · rcases getElem_set hk with ⟨rfl, -⟩ | ⟨hNe, hOldK⟩
    · rfl
    · exact absurd hv (hOther p hu k v hNe hOldK)
  · rcases getElem_set hk with ⟨rfl, rfl⟩ | ⟨-, hOldK⟩
    · exact absurd hu (hOther p hv j u hNe hOldJ)
    · exact hOnce.created_once p j k u v hOldJ hOldK hu hv

/-- **One event.** -/
theorem names_once_event_iff {e : ReaderEvent} (h : Creating s (e :: es)) (hOnce : s.NamesOnce) :
    (s.step e).NamesOnce ↔ s.Unlisted e := by
  rcases e with q | ⟨i, outcome, now⟩
  · refine iff_of_true ⟨?_, hOnce.names_once⟩ trivial
    intro p j k t t' hj hk ht ht'
    rcases getElem_append hj with ⟨-, rfl⟩ | hj
    · cases ht.1
    · rcases getElem_append hk with ⟨-, rfl⟩ | hk
      · cases ht'.1
      · exact hOnce.created_once p j k t t' hj hk ht ht'
  · rcases ht : s.threads[i]? with _ | t
    · rw [step_none ht]
      refine iff_of_true hOnce ?_
      intro t hMem
      rw [ht] at hMem
      cases hMem
    · obtain ⟨newCharacter, hQuery, hAccount⟩ := h.requests i t ht
      have hUnlisted : s.Unlisted (.step i outcome now) ↔ ¬ t.CommitsTwice outcome s.db := by
        rw [Unlisted, ht]
        simp
      have hTwice : t.CommitsTwice outcome s.db ↔ t.stage = .found ∧ outcome.effective = true ∧
          s.db.Lists (newCharacter.account, newCharacter.characterName) := by
        rw [Thread.CommitsTwice, hQuery]
      rw [hUnlisted, hTwice, step_some ht]
      rcases Query.step_addNewCharacter newCharacter outcome now s.db t.stage with
        ⟨hFound, hEffect, hCommit⟩ | ⟨hSame, hReturned, hNot⟩
      · rw [← hQuery] at hCommit
        obtain ⟨-, -, hNames⟩ := Database.insertNewCharacter_spec h.unique hAccount hCommit
        rw [and_iff_right hFound, and_iff_right hEffect]
        constructor
        · intro hNext
          exact (hNames hOnce.names_once).mp hNext.names_once
        · intro hNot
          refine ⟨created_once_set hOnce ?_, (hNames hOnce.names_once).mpr hNot⟩
          intro p hCreated j u _ hu hOld
          obtain ⟨-, newCharacter', hQuery', rfl⟩ := hCreated
          obtain rfl : newCharacter' = newCharacter :=
            Query.addNewCharacter.inj (hQuery'.symm.trans hQuery)
          exact hNot (h.listed j u _ hu hOld)
      · rw [← hQuery] at hSame hReturned
        refine iff_of_true ?_ ?_
        · refine ⟨created_once_set hOnce ?_, by rw [hSame]; exact hOnce.names_once⟩
          intro p hCreated j u hNe hu hOld
          exact hNe (hOnce.created_once p j i u t hu ht hOld
            ⟨hReturned hCreated.1, hCreated.2⟩)
        · intro hListed
          exact hNot ⟨hListed.1, hListed.2.1,
            Database.insertNewCharacter_of_lists h.unique hListed.2.2⟩

/--
**Unique names.** From a database whose arrays hold no name twice, with requests to create
characters for accounts that exist: one request at most returns 1 for a character, and no array
comes to hold a name twice, if and only if no transaction takes effect on an account that
lists its name.
-/
theorem names_once_iff {db : Database} (hUnique : Unique accountIndexes db.accounts)
    (hNames : db.NamesNodup) {es : List ReaderEvent} (hEvents : ∀ e ∈ es, CreatesFor db e) :
    Always step NamesOnce (start db) es ↔ Each step Unlisted (start db) es := by
  refine always_iff_each Creating ?_ ?_ ⟨?_, hNames⟩ ⟨hUnique, ?_, hEvents, ?_⟩
  · intro s e es h _ _
    exact h.step
  · intro s e es h hOnce
    exact names_once_event_iff h hOnce
  · intro p i j t t' ht
    cases ht
  · intro i t ht
    cases ht
  · intro i t p ht
    cases ht

/-- An account without characters. -/
def oneAccount : Database := (Database.empty.addNewAccount (literal "a") (literal "p") [] 0).1

/-- The request for a character of it. -/
def newHero : LoginCharacterRequestMessage where
  requestCode := 50
  account := literal "a"
  password := []
  characterName := literal "hero"
  characterGender := true
  characterOccuption := 100112
  characterState := 100011

/-- Two readers with the same request, one after the other. -/
theorem names_once_in_turn : Always step NamesOnce (start oneAccount)
    [.request (.addNewCharacter newHero), .request (.addNewCharacter newHero),
      .step 0 .done 1, .step 0 .done 1, .step 1 .done 2, .step 1 .done 2] := by
  have hUnique : Unique accountIndexes oneAccount.accounts := List.pairwise_singleton _ _
  have hRequest : CreatesFor oneAccount (.request (.addNewCharacter newHero)) :=
    ⟨newHero, rfl, by decide⟩
  refine (names_once_iff hUnique (by decide) ?_).mpr (by decide)
  refine List.forall_mem_cons.mpr ⟨hRequest, List.forall_mem_cons.mpr ⟨hRequest, ?_⟩⟩
  simp [CreatesFor]

/-- Both look for the character before either commits. -/
theorem not_names_once : ¬ Always step NamesOnce (start oneAccount)
    [.request (.addNewCharacter newHero), .request (.addNewCharacter newHero),
      .step 0 .done 1, .step 1 .done 1, .step 0 .done 2, .step 1 .done 2] := by
  intro h
  let t : Thread := ⟨.addNewCharacter newHero, .returned 1, false⟩
  have hCreated : t.Created (literal "a", literal "hero") := ⟨rfl, newHero, rfl, rfl⟩
  exact absurd (h.final.created_once _ 0 1 t t (by decide) (by decide) hCreated hCreated)
    (by decide)

end Readers

end WarringServer.DBServer
