import WarringServer.DBServer.Store
import WarringServer.Lib.Run

/-!
# Isolation — the cache keys of characters

The cache holds a character under `account + ":" + character`. With a colon in a name two
characters can have one key: then an upload for one is what a load gets for the other.

For characters with different keys there is one more way from one to the other: an upload
carries ACCOUNT and NAME a second time, in its data, and these say which document it
changes. The data of that document may be cached later, under its own key.

* `uploads_isolated` — without the uploads for one character the cached data of the
  other would be the same, if the keys differ and no upload names a character that has
  the key of the other;
* `isolated_iff` — the first of these conditions is necessary too.
-/

namespace WarringServer.DBServer

open Message Collection MakeDocHelper Run

namespace Store

-- ---------------------------------------------------------------------------
-- Two runs
-- ---------------------------------------------------------------------------

/-- The request is not an upload for `p`. -/
def notUpload (p : CharacterPair) : Request → Bool
  | .upload _ q _ => q ≠ p
  | _ => true

/-- The uploads for `p` make no difference to what is cached for `q`, at any point of
the run. -/
def Isolated (d : Drivers Store) (p q : CharacterPair) (s : Store) (es : List Request) : Prop :=
  ∀ n, (final (handle d) s ((es.take n).filter (notUpload p))).cachedData q =
    (final (handle d) s (es.take n)).cachedData q

/-- The data of an upload for `p` does not name a character with the key of `q`. -/
def NamesApart (p q : CharacterPair) (s : Store) : Request → Prop
  | .upload _ r data => r = p → ∀ info, CharacterInfo.deserialize data = .ok info →
      s.db.Lists (info.account, info.name) → keyOf (info.account, info.name) ≠ keyOf q
  | _ => True

-- ---------------------------------------------------------------------------
-- What counts for one key
-- ---------------------------------------------------------------------------

/-- The character of a document is cached under the key. -/
def hasKey (k : Bytes) (d : CharacterDocument) : Bool := keyOf d.pair = k

/-- The documents that a lookup may find have one key. -/
theorem hasKey_of_byCharacter {p : CharacterPair} {d : CharacterDocument} (k : Bytes)
    (h : byCharacter p d = true) : hasKey k d = decide (keyOf p = k) := by
  rw [hasKey, byCharacter_iff.mp h]

/-- Two stores agree on all that can come to be cached under a key. -/
structure SameFor (k : Bytes) (s s' : Store) : Prop where
  now : s.now = s'.now
  cache : s.cache k = s'.cache k
  names : Database.names s.db.accounts = Database.names s'.db.accounts
  characters : s.db.characters.filter (hasKey k) = s'.db.characters.filter (hasKey k)

section

variable {k key : Bytes} {s s' : Store} {p q : CharacterPair}

theorem SameFor.refl (k : Bytes) (s : Store) : SameFor k s s := ⟨rfl, rfl, rfl, rfl⟩

theorem SameFor.symm (h : SameFor k s s') : SameFor k s' s :=
  ⟨h.now.symm, h.cache.symm, h.names.symm, h.characters.symm⟩

theorem SameFor.trans {s'' : Store} (h : SameFor k s s') (h' : SameFor k s' s'') :
    SameFor k s s'' :=
  ⟨h.now.trans h'.now, h.cache.trans h'.cache, h.names.trans h'.names,
    h.characters.trans h'.characters⟩

theorem SameFor.cachedData (h : SameFor (keyOf q) s s') : s.cachedData q = s'.cachedData q :=
  cachedData_congr h.now h.cache

theorem SameFor.lists (h : SameFor k s s') : s.db.Lists p ↔ s'.db.Lists p := by
  rw [Database.lists_iff, Database.lists_iff, h.names]

/-- A character with the key is looked up with the same result. -/
theorem SameFor.getOne (h : SameFor k s s') (hKey : keyOf p = k) :
    s.db.getOneCharacterInfoFill2Message p.1 p.2 =
      s'.db.getOneCharacterInfoFill2Message p.1 p.2 := by
  have hMatch : ∀ d : CharacterDocument, byCharacter (p.1, p.2) d = true → hasKey k d = true :=
    fun d hd => (hasKey_of_byCharacter k hd).trans (decide_eq_true hKey)
  rw [Database.getOneCharacterInfoFill2Message, Database.getOneCharacterInfoFill2Message,
    ← find_filter hMatch s.db.characters, h.characters, find_filter hMatch]

-- ---------------------------------------------------------------------------
-- Writes under another key
-- ---------------------------------------------------------------------------

theorem sameFor_hset_of_ne (s : Store) (hKey : k ≠ key) (fields : List (Bytes × Bytes)) :
    SameFor k (s.hset key fields).2 s :=
  ⟨rfl, hset_cache_of_ne s hKey fields, rfl, rfl⟩

theorem sameFor_expire_of_ne (s : Store) (hKey : k ≠ key) (secs : Nat) :
    SameFor k (s.expire key secs).2 s :=
  ⟨expire_now .., expire_cache_of_ne s hKey secs, by rw [expire_db], by rw [expire_db]⟩

theorem sameFor_cacheUpload_of_ne (s : Store) (last : Bool) (hKey : k ≠ keyOf p) (data : Bytes) :
    SameFor k (s.cacheUpload last p data) s :=
  ⟨cacheUpload_now, cacheUpload_cache_of_ne hKey, by rw [cacheUpload_db], by rw [cacheUpload_db]⟩

/-- An update of a document of another key. -/
theorem sameFor_update_of_ne (s : Store) (info : CharacterInfo) (last : Bool) (now : Nat)
    (hKey : s.db.Lists (info.account, info.name) → keyOf (info.account, info.name) ≠ k) :
    SameFor k { s with db := (s.db.updateCharacter info last now).1 } s := by
  rw [Database.updateCharacter_eq]
  split
  · rename_i hListed
    refine ⟨rfl, rfl, Database.names_setAccounts .., ?_⟩
    refine filter_updateFirst (fun d hd => ?_) s.db.characters
    have hOther : hasKey k d = false :=
      (hasKey_of_byCharacter k hd).trans (decide_eq_false (hKey hListed))
    -- the update leaves the account and the name of the document
    exact ⟨hOther, hOther⟩
  · exact SameFor.refl k s

-- ---------------------------------------------------------------------------
-- Writes in both runs
-- ---------------------------------------------------------------------------

theorem SameFor.hset (h : SameFor k s s') (key : Bytes) (fields : List (Bytes × Bytes)) :
    SameFor k (s.hset key fields).2 (s'.hset key fields).2 := by
  refine ⟨h.now, ?_, h.names, h.characters⟩
  by_cases hKey : k = key
  · subst hKey
    exact hset_cache_congr h.now h.cache fields
  · rw [hset_cache_of_ne s hKey, hset_cache_of_ne s' hKey, h.cache]

theorem SameFor.expire (h : SameFor k s s') (key : Bytes) (secs : Nat) :
    SameFor k (s.expire key secs).2 (s'.expire key secs).2 := by
  refine ⟨by rw [expire_now, expire_now, h.now], ?_, by rw [expire_db, expire_db, h.names],
    by rw [expire_db, expire_db, h.characters]⟩
  by_cases hKey : k = key
  · subst hKey
    exact (expire_congr h.now h.cache secs).2
  · rw [expire_cache_of_ne s hKey, expire_cache_of_ne s' hKey, h.cache]

theorem SameFor.cacheUpload (h : SameFor k s s') (last : Bool) (p : CharacterPair) (data : Bytes) :
    SameFor k (s.cacheUpload last p data) (s'.cacheUpload last p data) := by
  have hCached := h.hset (keyOf p) [(literal "character_data", data)]
  cases last with
  | true => exact hCached.expire _ 300
  | false => exact hCached

theorem SameFor.update (h : SameFor k s s') (info : CharacterInfo) (last : Bool) :
    SameFor k { s with db := (s.db.updateCharacter info last s.now).1 }
      { s' with db := (s'.db.updateCharacter info last s'.now).1 } := by
  by_cases hKey : keyOf (info.account, info.name) = k
  · have hListed : s.db.Lists (info.account, info.name) ↔ s'.db.Lists (info.account, info.name) :=
      h.lists
    rw [Database.updateCharacter_eq, Database.updateCharacter_eq]
    by_cases hs : s.db.Lists (info.account, info.name)
    · rw [if_pos hs, if_pos (hListed.mp hs)]
      refine ⟨h.now, h.cache, ?_, ?_⟩
      · rw [Database.names_setAccounts, Database.names_setAccounts, h.names]
      · -- the update goes to the document it finds among those of the key
        have hMatch : ∀ d : CharacterDocument,
            byCharacter (info.account, info.name) d = true →
              hasKey k d = true ∧ hasKey k (makeDocUpdateCharacter info d) = true := by
          intro d hd
          have hOwn : hasKey k d = true :=
            (hasKey_of_byCharacter k hd).trans (decide_eq_true hKey)
          exact ⟨hOwn, hOwn⟩
        rw [updateFirst_filter hMatch, updateFirst_filter hMatch, h.characters]
    · rw [if_neg hs, if_neg (mt hListed.mpr hs)]
      exact h
  · exact ((sameFor_update_of_ne s info last s.now fun _ => hKey).trans h).trans
      (sameFor_update_of_ne s' info last s'.now fun _ => hKey).symm

end

-- ---------------------------------------------------------------------------
-- Requests
-- ---------------------------------------------------------------------------

section

variable (text : CDouble → Bytes) (junk : CInt) {k : Bytes} {s s' : Store} {p q : CharacterPair}

/-- A character that enters the game under another key. -/
theorem sameFor_enterGame_of_ne (s : Store) (hKey : k ≠ keyOf p) :
    SameFor k (s.handle (drivers text junk) (.enterGame p)) s := by
  rw [handle_enterGame]
  split
  · exact SameFor.refl k s
  · split
    · exact sameFor_expire_of_ne s hKey 300
    · exact (sameFor_expire_of_ne _ hKey 300).trans (sameFor_hset_of_ne s hKey _)

/-- An upload under another key, with data that names a character of another key. -/
theorem sameFor_upload_of_ne (s : Store) (last : Bool) {data : Bytes} (hKey : k ≠ keyOf p)
    (hNames : ∀ info, CharacterInfo.deserialize data = .ok info →
      s.db.Lists (info.account, info.name) → keyOf (info.account, info.name) ≠ k) :
    SameFor k (s.handle (drivers text junk) (.upload last p data)) s := by
  have hCached := sameFor_cacheUpload_of_ne s last hKey data
  rw [handle_upload]
  split
  · rename_i info hData
    refine (sameFor_update_of_ne _ info last _ fun hListed => ?_).trans hCached
    exact hNames info hData (hCached.lists.mp hListed)
  · exact hCached

/-- **One request** taken by both runs. -/
theorem SameFor.handle (h : SameFor k s s') (e : Request) :
    SameFor k (s.handle (drivers text junk) e) (s'.handle (drivers text junk) e) := by
  cases e with
  | enterGame p =>
    by_cases hKey : k = keyOf p
    · rw [handle_enterGame, handle_enterGame, h.getOne hKey.symm]
      subst hKey
      cases s'.db.getOneCharacterInfoFill2Message p.1 p.2 with
      | none => exact h
      | some info =>
        dsimp only
        rw [(expire_congr h.now h.cache 300).1]
        split
        · exact h.expire _ 300
        · exact (h.hset _ _).expire _ 300
    · exact ((sameFor_enterGame_of_ne text junk s hKey).trans h).trans
        (sameFor_enterGame_of_ne text junk s' hKey).symm
  | upload last p data =>
    have hCached := h.cacheUpload last p data
    rw [handle_upload, handle_upload]
    cases CharacterInfo.deserialize data with
    | ok info => exact hCached.update info last
    | error fault => exact hCached
  | load p =>
    rw [handle_load, handle_load]
    exact h
  | elapse milliseconds => exact ⟨congrArg (· + milliseconds) h.now, h.cache, h.names, h.characters⟩

/-- **Runs.** With the uploads for `p` or without, the same is cached for `q`. -/
theorem uploads_isolated {es : List Request} (hKey : keyOf p ≠ keyOf q)
    (h : Each (handle (drivers text junk)) (NamesApart p q) s es) :
    Isolated (drivers text junk) p q s es := by
  intro n
  refine (SameFor.cachedData ?_).symm
  refine final_filter (fun s s' e _ hSame => hSame.handle text junk e) ?_ (SameFor.refl _ s)
    (h.take n)
  intro s s' e hDropped hNames hSame
  cases e with
  | upload last r data =>
    obtain rfl : r = p := by simpa [notUpload] using hDropped
    exact (sameFor_upload_of_ne text junk s last hKey.symm (hNames rfl)).trans hSame
  | _ => cases hDropped

/--
**Isolation of the cached characters.** In runs whose uploads for `p` do not name another
character under the key of `q`, the uploads for `p` never make a difference to the data that
a load gets for `q` from the cache — if and only if the two have different keys.
-/
theorem isolated_iff (p q : CharacterPair) :
    (∀ s es, Each (handle (drivers text junk)) (NamesApart p q) s es →
      Isolated (drivers text junk) p q s es) ↔ keyOf p ≠ keyOf q := by
  constructor
  · -- an upload of one byte, which no object can be read from
    intro hIsolated hKey
    have hNames : NamesApart p q empty (.upload false p [0]) := by
      rintro - info hData
      cases hData
    have hSame := hIsolated empty [.upload false p [0]] ⟨hNames, trivial⟩ 1
    have hUploaded : (empty.handle (drivers text junk) (.upload false p [0])).cachedData q = some [0] :=
      cachedData_upload text junk false (by decide) hKey.symm
    have hDropped : ([Request.upload false p [0]].take 1).filter (notUpload p) = [] := by
      simp [notUpload]
    have hNone : empty.cachedData q = none := rfl
    rw [hDropped] at hSame
    exact absurd (hNone.symm.trans (hSame.trans hUploaded)) (by simp)
  · intro hKey s es h
    exact uploads_isolated text junk hKey h

/-- What a player of account `a:b` with a character `c` uploads. -/
def colonInfo : CharacterInfo :=
  ⟨literal "a:b", literal "c", 1, true, 100112, 100011, 0, 100, 50, 10, 100, 10, 10, 10, 200001,
    0, 0, 0⟩

/-- Account `a:b` with character `c` and account `a` with character `b:c` share a key: the
upload for one is what a load gets for the other. -/
theorem not_isolated :
    ¬ Isolated (drivers (fun _ => []) 0) (literal "a:b", literal "c") (literal "a", literal "b:c")
      empty [.upload false (literal "a:b", literal "c") colonInfo.serialize] := by
  intro h
  have hSame := h 1
  have hUploaded : (empty.handle (drivers (fun _ => []) 0)
      (.upload false (literal "a:b", literal "c") colonInfo.serialize)).cachedData
        (literal "a", literal "b:c") = some colonInfo.serialize :=
    cachedData_upload _ _ false (colonInfo.serialize_ne_nil (by decide)) (by decide)
  have hDropped : ([Request.upload false (literal "a:b", literal "c") colonInfo.serialize].take
      1).filter (notUpload (literal "a:b", literal "c")) = [] := by
    simp [notUpload]
  rw [hDropped] at hSame
  have hNone : empty.cachedData (literal "a", literal "b:c") = none := by decide
  exact absurd (hNone.symm.trans (hSame.trans hUploaded)) (by simp)

end

end Store

end WarringServer.DBServer
