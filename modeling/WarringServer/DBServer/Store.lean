import WarringServer.DBServer.QueryTask

/-!
# Store — the drivers over MongoDB and Redis

The `Drivers` of a database server none of whose drivers fails: the two collections,
the cache of `RCache.cpp`, and the service registry. A cache entry is a Redis hash with
a time to live; `HSET` makes an entry without one and keeps the one an entry has,
`EXPIRE` sets it. Times are in milliseconds.

The operations that change nothing are noted as such, and the two requests that write to
the cache get one lemma each for the state they leave.
-/

namespace WarringServer.DBServer

open Message

/-- A hash of Redis. -/
structure CacheEntry where
  fields : Bytes → Option Bytes
  expiresAt : Option Nat

structure Store where
  db : Database
  cache : Bytes → Option CacheEntry
  /-- The sorted sets of the registry. -/
  services : Bytes → List Bytes
  /-- What `TTL` answers for a service. -/
  ttls : Bytes → Int
  now : Nat

namespace Store

/-- Nothing stored, nothing cached, no service. -/
def empty : Store := ⟨Database.empty, fun _ => none, fun _ => [], fun _ => -2, 0⟩

-- ---------------------------------------------------------------------------
-- Redis
-- ---------------------------------------------------------------------------

/-- The entry of a key, unless it has expired. -/
def live (s : Store) (key : Bytes) : Option CacheEntry :=
  (s.cache key).filter fun e => e.expiresAt.all fun t => s.now < t

def setField (fields : Bytes → Option Bytes) (field : Bytes × Bytes) : Bytes → Option Bytes :=
  Function.update fields field.1 (some field.2)

/-- `HSET`, with the count of new fields. -/
def hset (s : Store) (key : Bytes) (fields : List (Bytes × Bytes)) : Int × Store :=
  let entry := (s.live key).getD ⟨fun _ => none, none⟩
  (fields.countP fun field => (entry.fields field.1).isNone,
    { s with
      cache := Function.update s.cache key
        (some { entry with fields := fields.foldl setField entry.fields }) })

/-- `EXPIRE` -/
def expire (s : Store) (key : Bytes) (secs : Nat) : Bool × Store :=
  match s.live key with
  | some entry =>
    (true, { s with
      cache := Function.update s.cache key
        (some { entry with expiresAt := some (s.now + 1000 * secs) }) })
  | none => (false, s)

/-- `HGET` -/
def hget (s : Store) (key field : Bytes) : Option Bytes :=
  (s.live key).bind fun entry => entry.fields field

section

variable {s s' : Store} {key k : Bytes}

@[simp] theorem expire_now (s : Store) (key : Bytes) (secs : Nat) :
    (s.expire key secs).2.now = s.now := by
  unfold expire
  split <;> rfl

@[simp] theorem expire_db (s : Store) (key : Bytes) (secs : Nat) :
    (s.expire key secs).2.db = s.db := by
  unfold expire
  split <;> rfl

theorem live_congr (hNow : s.now = s'.now) (hCache : s.cache key = s'.cache key) :
    s.live key = s'.live key := by
  rw [live, live, hNow, hCache]

/-- Other keys are not written. -/
theorem hset_cache_of_ne (s : Store) (h : k ≠ key) (fields : List (Bytes × Bytes)) :
    (s.hset key fields).2.cache k = s.cache k :=
  Function.update_of_ne h ..

theorem expire_cache_of_ne (s : Store) (h : k ≠ key) (secs : Nat) :
    (s.expire key secs).2.cache k = s.cache k := by
  unfold expire
  split
  · exact Function.update_of_ne h ..
  · rfl

/-- What is written under a key depends on the entry of the key and the time. -/
theorem hset_cache_congr (hNow : s.now = s'.now) (hCache : s.cache key = s'.cache key)
    (fields : List (Bytes × Bytes)) :
    (s.hset key fields).2.cache key = (s'.hset key fields).2.cache key := by
  simp only [hset, Function.update_self, live_congr hNow hCache]

theorem expire_congr (hNow : s.now = s'.now) (hCache : s.cache key = s'.cache key) (secs : Nat) :
    (s.expire key secs).1 = (s'.expire key secs).1 ∧
      (s.expire key secs).2.cache key = (s'.expire key secs).2.cache key := by
  unfold expire
  rw [live_congr hNow hCache]
  split
  · exact ⟨rfl, by simp [hNow]⟩
  · exact ⟨rfl, hCache⟩

/-- The entry of a key has not expired. -/
theorem expiresAt_of_live {entry : CacheEntry} (h : s.live key = some entry) :
    entry.expiresAt.all (fun t => s.now < t) = true :=
  (Option.filter_eq_some_iff.mp h).2

/-- A hash that is written to is there. -/
theorem live_hset (s : Store) (key : Bytes) (fields : List (Bytes × Bytes)) :
    ∃ expiresAt, (s.hset key fields).2.live key = some ⟨fields.foldl setField
      ((s.live key).getD ⟨fun _ => none, none⟩).fields, expiresAt⟩ := by
  have hKept : ((s.live key).getD ⟨fun _ => none, none⟩).expiresAt.all (fun t => s.now < t) = true := by
    -- the time to live is that of an entry that has not expired, or none
    cases hLive : s.live key with
    | none => rfl
    | some entry => exact expiresAt_of_live hLive
  refine ⟨((s.live key).getD ⟨fun _ => none, none⟩).expiresAt, ?_⟩
  show Option.filter _ ((s.hset key fields).2.cache key) = _
  simp only [hset, Function.update_self]
  exact Option.filter_eq_some_iff.mpr ⟨rfl, hKept⟩

theorem live_expire {entry : CacheEntry} {secs : Nat} (h : s.live key = some entry)
    (hSecs : 0 < secs) :
    (s.expire key secs).2.live key =
      some { entry with expiresAt := some (s.now + 1000 * secs) } := by
  have hCache : (s.expire key secs).2.cache key =
      some { entry with expiresAt := some (s.now + 1000 * secs) } := by
    simp [expire, h]
  rw [live, hCache]
  exact Option.filter_eq_some_iff.mpr ⟨rfl, by simp [hSecs]⟩

end

-- ---------------------------------------------------------------------------
-- `RCache`
-- ---------------------------------------------------------------------------

def getCharacterData (s : Store) (characterKey : Bytes) : Int × Bytes :=
  let characterData := (s.hget characterKey (literal "character_data")).getD []
  (if characterData = [] then 0 else 1, characterData)

-- ---------------------------------------------------------------------------
-- Drivers
-- ---------------------------------------------------------------------------

/-- An operation of the database. -/
def onDb (f : Database → Nat → Database × Int) : Task Store Int :=
  .operation fun s => ((f s.db s.now).2, { s with db := (f s.db s.now).1 })

def drivers (doubleText : CDouble → Bytes) (indeterminate : CInt) : Drivers Store where
  addNewAccount accountName password address :=
    onDb fun db now => db.addNewAccount accountName password address now
  addNewCharacter newCharacter := onDb fun db _ => db.addNewCharacter newCharacter
  removeCharacter accountName characterName :=
    onDb fun db _ => db.removeCharacter accountName characterName
  updateCharacter characterInfo last :=
    onDb fun db now => db.updateCharacter characterInfo last now
  matchAccountAndUpdateLoginState accountName password :=
    onDb fun db now => db.matchAccountAndUpdateLoginState accountName password now
  getAllCharacterBaseInfoFill2Message accountName :=
    .operation fun s => (some (s.db.getAllCharacterBaseInfoFill2Message accountName), s)
  getOneCharacterInfoFill2Message accountName characterName :=
    .operation fun s => (s.db.getOneCharacterInfoFill2Message accountName characterName, s)
  addCharacter characterKey characterInfo := .operation fun s => s.hset characterKey characterInfo
  setTTL characterKey secs :=
    .operation fun s => (some (s.expire characterKey secs).1, (s.expire characterKey secs).2)
  getCharacterData characterKey := .operation fun s => (s.getCharacterData characterKey, s)
  zrangebyscore key := .operation fun s => (s.services key, s)
  ttl key := .operation fun s => (s.ttls key, s)
  doubleText := doubleText
  indeterminate := indeterminate

-- ---------------------------------------------------------------------------
-- Requests for characters
-- ---------------------------------------------------------------------------

/-- The requests that read or write the cache, and the time between them. -/
inductive Request where
  | enterGame (p : CharacterPair)
  | upload (last : Bool) (p : CharacterPair) (characterData : Bytes)
  | load (p : CharacterPair)
  | elapse (milliseconds : Nat)
  deriving Repr, DecidableEq

/-- The key a character is cached under. -/
def keyOf (p : CharacterPair) : Bytes := generateCharacterKey p.1 p.2

/-- The state after a request. -/
def handle (d : Drivers Store) (s : Store) : Request → Store
  | .enterGame p => ((characterEnterGame d p.1 p.2).exec s).2
  | .upload last p characterData => ((uploadCharacter d last p.1 p.2 characterData).exec s).2
  | .load p => ((loadCharacter d p.1 p.2).exec s).2
  | .elapse milliseconds => { s with now := s.now + milliseconds }

/-- The cache after an upload, without or with a time to live. -/
def cacheUpload (s : Store) (last : Bool) (p : CharacterPair) (characterData : Bytes) : Store :=
  let cached := (s.hset (keyOf p) [(literal "character_data", characterData)]).2
  if last then (cached.expire (keyOf p) 300).2 else cached

/-- The data that a load request gets from the cache, if it gets any. -/
def cachedData (s : Store) (p : CharacterPair) : Option Bytes :=
  if (s.getCharacterData (keyOf p)).1 > 0 then some (s.getCharacterData (keyOf p)).2 else none

section

variable {s : Store} {last : Bool} {p : CharacterPair} {data : Bytes}

@[simp] theorem cacheUpload_now : (s.cacheUpload last p data).now = s.now := by
  unfold cacheUpload
  cases last with
  | true => exact expire_now ..
  | false => rfl

@[simp] theorem cacheUpload_db : (s.cacheUpload last p data).db = s.db := by
  unfold cacheUpload
  cases last with
  | true => exact expire_db ..
  | false => rfl

theorem cacheUpload_cache_of_ne {k : Bytes} (h : k ≠ keyOf p) :
    (s.cacheUpload last p data).cache k = s.cache k := by
  unfold cacheUpload
  cases last with
  | true => exact (expire_cache_of_ne _ h _).trans (hset_cache_of_ne s h _)
  | false => exact hset_cache_of_ne s h _

/-- The data of an upload can be read. -/
theorem hget_cacheUpload :
    (s.cacheUpload last p data).hget (keyOf p) (literal "character_data") = some data := by
  obtain ⟨expiresAt, hLive⟩ := live_hset s (keyOf p) [(literal "character_data", data)]
  -- with or without a time to live
  have hKept : ∃ expiresAt, (s.cacheUpload last p data).live (keyOf p) =
      some ⟨[(literal "character_data", data)].foldl setField
        ((s.live (keyOf p)).getD ⟨fun _ => none, none⟩).fields, expiresAt⟩ := by
    cases last with
    | true => exact ⟨_, live_expire hLive (by decide)⟩
    | false => exact ⟨_, hLive⟩
  obtain ⟨expiresAt', hLive'⟩ := hKept
  rw [hget, hLive']
  simp [setField]

end

section

variable (text : CDouble → Bytes) (junk : CInt)

-- ---------------------------------------------------------------------------
-- The handlers run these requests
-- ---------------------------------------------------------------------------

theorem exec_decoded {σ α : Type} {r : Except DecodeFault α} {a : α} (h : r = .ok a) (s : σ) :
    (decoded r : Task σ α).exec s = (.ok a, s) := by
  rw [h]
  rfl

/-- A carrier with a load or an upload does to the store what the request does. -/
theorem getGameCharacterResponseMsg_state {c : Carrier} {m : DSLoadOrUploadCharacterMessage}
    (hType : c.type = DBServConf.MESSAGE_GAME_CHARACTER_MSG)
    (hDecode : DSLoadOrUploadCharacterMessage.deserialize c.message = .ok m) (s : Store) :
    ((getGameCharacterResponseMsg (drivers text junk) c).exec s).2 =
      if m.code = code.game.GAME_LOAD_CHARACTER_CODE then
        s.handle (drivers text junk) (.load (m.account, m.characterName))
      else if m.code = code.game.GAME_UPLOAD_CHARACTER_CODE then
        s.handle (drivers text junk) (.upload false (m.account, m.characterName) m.characterData)
      else if m.code = code.game.GAME_LAST_UPLOAD_CHARACTER_CODE then
        s.handle (drivers text junk) (.upload true (m.account, m.characterName) m.characterData)
      else
        s := by
  rw [getGameCharacterResponseMsg, if_neg (not_not.mpr hType),
    Job.exec_bind_ok (exec_decoded hDecode s)]
  dsimp only
  split
  · -- what follows the request in the handler does not touch the state
    exact Job.exec_bind_readOnly (fun _ => Job.readOnly_pure _) s
  · split
    · exact Job.exec_bind_readOnly (fun _ => Job.readOnly_pure _) s
    · split
      · exact Job.exec_bind_readOnly (fun _ => Job.readOnly_pure _) s
      · rfl

/-- A carrier with a character that enters the game does to the store what the request
does. -/
theorem getLoginCharacterResponseMsg_state {c : Carrier} {m : LoginCharacterRequestMessage}
    (hType : c.type = DBServConf.MESSAGE_LOGIN_LOGIN_CHARACTER_MSG)
    (hDecode : LoginCharacterRequestMessage.deserialize c.message = .ok m)
    (hCode : m.requestCode = code.login.LOGIN_CHARACTER_ENTER_GAME_CODE) (s : Store) :
    ((getLoginCharacterResponseMsg (drivers text junk) c).exec s).2 =
      s.handle (drivers text junk) (.enterGame (m.account, m.characterName)) := by
  rw [getLoginCharacterResponseMsg, if_neg (not_not.mpr hType),
    Job.exec_bind_ok (exec_decoded hDecode s)]
  rw [answerLoginCharacter, if_neg (by rw [hCode]; decide), if_neg (by rw [hCode]; decide),
    if_pos hCode]
  exact Job.exec_bind_readOnly (fun _ => Job.readOnly_pure _) s

-- ---------------------------------------------------------------------------
-- What the requests leave
-- ---------------------------------------------------------------------------

theorem lowLoad_readOnly (keys : List Bytes) :
    Job.ReadOnly (lowLoad (drivers text junk) keys) := by
  induction keys with
  | nil => exact Job.readOnly_pure _
  | cons key keys ih =>
    refine Job.readOnly_bind (fun _ => rfl) ?_
    intro ttl
    exact Job.readOnly_ite (fun _ => Job.readOnly_pure _) fun _ => ih

theorem getLowLoadService_readOnly (serviceKey : Bytes) :
    Job.ReadOnly (getLowLoadService (drivers text junk) serviceKey) :=
  Job.readOnly_bind (fun _ => rfl) fun keys => lowLoad_readOnly text junk keys

/-- Looking for services changes nothing. -/
theorem enterServices_readOnly (sceneKey : Bytes) :
    Job.ReadOnly (enterServices (drivers text junk) sceneKey) := by
  refine Job.readOnly_bind (getLowLoadService_readOnly text junk _) ?_
  intro gateway
  refine Job.readOnly_bind (getLowLoadService_readOnly text junk _) ?_
  intro scene
  refine Job.readOnly_ite (fun _ => Job.readOnly_pure _) ?_
  intro _
  refine Job.readOnly_bind (Job.readOnly_ofExcept _) ?_
  intro gatewayAddress
  refine Job.readOnly_bind (Job.readOnly_ofExcept _) ?_
  intro sceneAddress
  split
  · exact Job.readOnly_bind (Job.readOnly_ofExcept _) fun ds => Job.readOnly_pure _
  · exact Job.readOnly_pure _

theorem loadCharacter_readOnly (account characterName : Bytes) :
    Job.ReadOnly (loadCharacter (drivers text junk) account characterName) := by
  refine Job.readOnly_bind (fun _ => rfl) ?_
  intro r
  obtain ⟨result, characterData⟩ := r
  refine Job.readOnly_ite (fun _ => Job.readOnly_pure _) ?_
  intro _
  refine Job.readOnly_bind (fun _ => rfl) ?_
  intro info
  cases info with
  | none => exact Job.readOnly_pure _
  | some info => exact Job.readOnly_pure _

theorem handle_load (s : Store) (p : CharacterPair) :
    s.handle (drivers text junk) (.load p) = s :=
  loadCharacter_readOnly text junk p.1 p.2 s

/-- The store after an upload: the data in the cache first, then the database if the data
decodes. -/
theorem handle_upload (s : Store) (last : Bool) (p : CharacterPair) (data : Bytes) :
    s.handle (drivers text junk) (.upload last p data) =
      match CharacterInfo.deserialize data with
      | .ok info =>
        { s.cacheUpload last p data with
          db := ((s.cacheUpload last p data).db.updateCharacter info last
            (s.cacheUpload last p data).now).1 }
      | .error _ => s.cacheUpload last p data := by
  have hSet : ((drivers text junk).addCharacter (keyOf p) [(literal "character_data", data)]).exec
      s = (.ok (s.hset (keyOf p) [(literal "character_data", data)]).1,
        (s.hset (keyOf p) [(literal "character_data", data)]).2) := rfl
  rw [handle, uploadCharacter, ← keyOf, Job.exec_bind_ok hSet]
  cases last with
  | true =>
    have hTtl : ∀ s' : Store, ((drivers text junk).setTTL (keyOf p) 300).exec s' =
        (.ok (some (s'.expire (keyOf p) 300).1), (s'.expire (keyOf p) 300).2) := fun _ => rfl
    rw [if_pos rfl, Job.exec_bind_ok (hTtl _)]
    cases CharacterInfo.deserialize data with
    | ok info => rfl
    | error fault => rfl
  | false =>
    cases CharacterInfo.deserialize data with
    | ok info => rfl
    | error fault => rfl

/-- The store after a character has entered the game. -/
theorem handle_enterGame (s : Store) (p : CharacterPair) :
    s.handle (drivers text junk) (.enterGame p) =
      match s.db.getOneCharacterInfoFill2Message p.1 p.2 with
      | none => s
      | some info =>
        if (s.expire (keyOf p) 300).1 then
          (s.expire (keyOf p) 300).2
        else
          ((s.hset (keyOf p) (characterFields (drivers text junk) info)).2.expire (keyOf p) 300).2 := by
  have hFind : ((drivers text junk).getOneCharacterInfoFill2Message p.1 p.2).exec s =
      (.ok (s.db.getOneCharacterInfoFill2Message p.1 p.2), s) := rfl
  rw [handle, characterEnterGame, Job.exec_bind_ok hFind]
  cases hInfo : s.db.getOneCharacterInfoFill2Message p.1 p.2 with
  | none => rfl
  | some info =>
    have hTtl : ((drivers text junk).setTTL (keyOf p) 300).exec s =
        (.ok (some (s.expire (keyOf p) 300).1), (s.expire (keyOf p) 300).2) := rfl
    dsimp only
    rw [← keyOf, Job.exec_bind_ok hTtl]
    cases hExists : (s.expire (keyOf p) 300).1 with
    | true => exact enterServices_readOnly text junk _ _
    | false =>
      -- without an entry there is nothing to expire
      have hSame : (s.expire (keyOf p) 300).2 = s := by
        unfold expire at hExists ⊢
        split
        · rename_i entry hLive
          simp [hLive] at hExists
        · rfl
      rw [hSame]
      exact enterServices_readOnly text junk _ _

-- ---------------------------------------------------------------------------
-- Cached data
-- ---------------------------------------------------------------------------

variable {s s' : Store} {p q : CharacterPair} {data : Bytes}

theorem cachedData_eq_some : s.cachedData p = some data ↔
    s.hget (keyOf p) (literal "character_data") = some data ∧ data ≠ [] := by
  unfold cachedData getCharacterData
  cases hField : s.hget (keyOf p) (literal "character_data") with
  | none => simp
  | some value =>
    by_cases hNil : value = []
    · simp only [hNil, Option.getD_some, if_true]
      simp
    · simp only [Option.getD_some, if_neg hNil, Option.some.injEq]
      rw [if_pos (by decide), Option.some.injEq]
      refine ⟨fun h => ⟨h, h ▸ hNil⟩, fun h => h.1⟩

/-- What is cached for a character depends on the entry of its key and the time. -/
theorem cachedData_congr (hNow : s.now = s'.now) (hCache : s.cache (keyOf p) = s'.cache (keyOf p)) :
    s.cachedData p = s'.cachedData p := by
  have hGet : s.getCharacterData (keyOf p) = s'.getCharacterData (keyOf p) := by
    rw [getCharacterData, getCharacterData, hget, hget, live_congr hNow hCache]
  rw [cachedData, cachedData, hGet]

/-- What is cached after an upload, the database left aside. -/
theorem cachedData_handle_upload (last : Bool) :
    (s.handle (drivers text junk) (.upload last p data)).cachedData q =
      (s.cacheUpload last p data).cachedData q := by
  rw [handle_upload]
  split
  · exact cachedData_congr rfl rfl
  · rfl

/-- The entry an upload leaves has the data of the upload. -/
theorem cachedData_upload (last : Bool) (hData : data ≠ []) (hKey : keyOf q = keyOf p) :
    (s.handle (drivers text junk) (.upload last p data)).cachedData q = some data := by
  rw [cachedData_handle_upload]
  refine cachedData_eq_some.mpr ⟨?_, hData⟩
  rw [hKey]
  exact hget_cacheUpload

/-- An upload under another key leaves what is cached. -/
theorem cachedData_upload_of_ne (last : Bool) (hKey : keyOf q ≠ keyOf p) :
    (s.handle (drivers text junk) (.upload last p data)).cachedData q = s.cachedData q := by
  rw [cachedData_handle_upload]
  exact cachedData_congr cacheUpload_now (cacheUpload_cache_of_ne hKey)

/-- Time adds nothing to the cache. -/
theorem cachedData_elapse {milliseconds : Nat}
    (h : (s.handle (drivers text junk) (.elapse milliseconds)).cachedData p = some data) :
    s.cachedData p = some data := by
  obtain ⟨hGet, hData⟩ := cachedData_eq_some.mp h
  obtain ⟨entry, hLive, hField⟩ := Option.bind_eq_some_iff.mp hGet
  obtain ⟨hCache, hKept⟩ := Option.filter_eq_some_iff.mp hLive
  -- an entry that has not expired later has not expired now
  have hBefore : entry.expiresAt.all (fun t => s.now < t) = true := by
    cases hExpires : entry.expiresAt with
    | none => rfl
    | some t =>
      rw [hExpires] at hKept
      have hLater : s.now + milliseconds < t := of_decide_eq_true hKept
      simp only [Option.all_some, decide_eq_true_eq]
      omega
  have hNow : s.live (keyOf p) = some entry := Option.filter_eq_some_iff.mpr ⟨hCache, hBefore⟩
  exact cachedData_eq_some.mpr ⟨by rw [hget, hNow]; exact hField, hData⟩

-- ---------------------------------------------------------------------------
-- Loads
-- ---------------------------------------------------------------------------

/-- A load request gets the cached data, if there is any. -/
theorem load_cached (h : s.cachedData p = some data) :
    ((loadCharacter (drivers text junk) p.1 p.2).exec s).1 =
      .ok ⟨code.game.GAME_LOAD_CHARACTER_SUCCESS, junk, p.1, p.2, data⟩ := by
  have hGet : ((drivers text junk).getCharacterData (keyOf p)).exec s =
      (.ok (s.getCharacterData (keyOf p)), s) := rfl
  unfold cachedData at h
  split at h
  · rename_i hPos
    rw [loadCharacter, ← keyOf, Job.exec_bind_ok hGet]
    dsimp only
    rw [if_pos hPos, Option.some.inj h]
    rfl
  · cases h

/-- Without cached data, the document of the character is serialised. -/
theorem load_stored (h : s.cachedData p = none) :
    ((loadCharacter (drivers text junk) p.1 p.2).exec s).1 =
      .ok (match s.db.getOneCharacterInfoFill2Message p.1 p.2 with
        | some info =>
          ⟨code.game.GAME_LOAD_CHARACTER_SUCCESS, info.sceneId, p.1, p.2, info.serialize⟩
        | none => ⟨code.game.GAME_LOAD_CHARACTER_ERROR, junk, [], [], []⟩) := by
  have hGet : ((drivers text junk).getCharacterData (keyOf p)).exec s =
      (.ok (s.getCharacterData (keyOf p)), s) := rfl
  have hFind : ((drivers text junk).getOneCharacterInfoFill2Message p.1 p.2).exec s =
      (.ok (s.db.getOneCharacterInfoFill2Message p.1 p.2), s) := rfl
  unfold cachedData at h
  split at h
  · cases h
  · rename_i hPos
    rw [loadCharacter, ← keyOf, Job.exec_bind_ok hGet]
    dsimp only
    rw [if_neg hPos, Job.exec_bind_ok hFind]
    cases s.db.getOneCharacterInfoFill2Message p.1 p.2 with
    | some info => rfl
    | none => rfl

end

end Store

end WarringServer.DBServer
