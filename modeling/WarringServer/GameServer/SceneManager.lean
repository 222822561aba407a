import Mathlib.Data.List.Basic
import Mathlib.Logic.Function.Basic
import WarringServer.Lib.Run
import WarringServer.Message.Types

/-!
# Scenes and their dedicated servers

A dedicated server (DS) registers a scene over its connection to the game server. The
game server notes the address in `mSceneAddresses`, and adds it to the sorted set of the
scene in Redis; a quit, a close or a heartbeat time-out of the connection removes it
from both.

The functions do not agree on the address. A registration takes the ip of the peer and
the port that the DS announces, all others take the ip and the port of the connection
itself. And an update adds to a sorted set without a look at the map.

* `release_settled_iff` — what one event does to the addresses nobody holds any more;
* `scenes_released_iff` — no address outlives its connection exactly if every
  connection that goes away holds its own peer address at most, in the scene that
  the map has for it, and no update comes from an address given up before.
-/

namespace WarringServer.GameServer

open Run Message

/-- `std::to_string`. -/
def decimal (n : Int) : Bytes := literal (toString n)

/-- `ip + ":" + std::to_string(port)`. -/
def address (ip : Bytes) (port : Int) : Bytes := ip ++ [58] ++ decimal port

/-- A connection of the game server; `name` distinguishes it. -/
structure Connection where
  name : Bytes
  ip : Bytes
  port : UInt16
  deriving DecidableEq, Repr

/-- `getIPPort`: `getHostAndServiceNUM` of the peer. -/
def Connection.getIPPort (conn : Connection) : Bytes := address conn.ip conn.port.toNat

/-- The sorted sets of Redis: key, member, score. -/
abbrev SortedSets := Bytes → Bytes → Option Int

/-- `RSBrokerHelper::sortedAdd`. `ok` is whether Redis answers; the answer is the number
of new members. -/
def sortedAdd (sets : SortedSets) (ok : Bool) (key member : Bytes) (score : Int) :
    SortedSets × Int :=
  if ok then
    (Function.update sets key (Function.update (sets key) member (some score)),
      if (sets key member).isNone then 1 else 0)
  else (sets, -1)

/-- `RSBrokerHelper::sortedRemove`. The answer is the number of removed members. -/
def sortedRemove (sets : SortedSets) (ok : Bool) (key member : Bytes) : SortedSets × Int :=
  if ok then
    (Function.update sets key (Function.update (sets key) member none),
      if (sets key member).isSome then 1 else 0)
  else (sets, -1)

/-- `SceneManager`, with the sorted sets it works on: DS scene address and scene key. -/
structure SceneManager where
  mSceneAddresses : Bytes → Option Bytes
  sortedSets : SortedSets

namespace SceneManager

def init : SceneManager := ⟨fun _ => none, fun _ _ => none⟩

def registerScene (m : SceneManager) (ok : Bool) (ip sceneKey : Bytes) (dsPort load : Int) :
    SceneManager × Int :=
  let address := address ip dsPort
  if (m.mSceneAddresses address).isNone then
    let (sets, result) := sortedAdd m.sortedSets ok sceneKey address load
    (⟨Function.update m.mSceneAddresses address (some sceneKey), sets⟩, result)
  else (m, -1)

def removeScene (m : SceneManager) (ok : Bool) (address : Bytes) : SceneManager × Int :=
  match m.mSceneAddresses address with
  | none => (m, -1)
  | some sceneKey =>
      let (sets, result) := sortedRemove m.sortedSets ok sceneKey address
      (⟨Function.update m.mSceneAddresses address none, sets⟩, result)

def updateScene (m : SceneManager) (ok : Bool) (address sceneKey : Bytes) (load : Int) :
    SceneManager × Int :=
  let (sets, result) := sortedAdd m.sortedSets ok sceneKey address load
  (⟨m.mSceneAddresses, sets⟩, result)

/-- `generateSceneIDKey` under `SERVICE_DS_PREFIX`. -/
def generateSceneIDKey (keyPrefix : Bytes) (sceneID : Int) : Bytes := keyPrefix ++ decimal sceneID

end SceneManager

def SERVICE_DS_PREFIX : Bytes := literal "Warring:Scene:"

-- ---------------------------------------------------------------------------
-- `GameMessageOp::messageFunc`
-- ---------------------------------------------------------------------------

def GAME_DS_REGISTER_CODE : Nat := 210
def GAME_DS_QUIT_CODE : Nat := 220
def GAME_DS_UPDATE_CODE : Nat := 230
def GAME_DS_REGISTER_SUCCESS : Nat := 10210
def GAME_DS_QUIT_SUCCESS : Nat := 10220
def GAME_DS_UPDATE_SUCCESS : Nat := 10230
def GAME_DS_REGISTER_ERROR : Nat := 30210
def GAME_DS_QUIT_ERROR : Nat := 30220
def GAME_DS_UPDATE_ERROR : Nat := 30230
def GAME_DS_UNKNOWN_ERROR : Nat := 30999

/-- The members of a `DSMessage` that a game server reads. -/
structure DSMessage where
  MSG_NAME : Bytes
  CODE : Nat
  DS_PORT : Int
  SCENE_ID : Int
  LOAD : Int
  deriving DecidableEq, Repr

/-- The members of the answer that are set. -/
structure DSResponse where
  MSG_NAME : Bytes
  CODE : Nat
  SCENE_ID : Int
  SCENE_DATA : Bytes
  deriving DecidableEq, Repr

/-- The branch of `messageFunc` for a `DSMessage`: `ok` is whether Redis answers. -/
def dsMessageFunc (m : SceneManager) (ok : Bool) (conn : Connection) (msg : DSMessage) :
    SceneManager × DSResponse :=
  let (m, code) :=
    if msg.CODE = GAME_DS_REGISTER_CODE then
      let sceneKey := SceneManager.generateSceneIDKey SERVICE_DS_PREFIX msg.SCENE_ID
      let (m, result) := m.registerScene ok conn.ip sceneKey msg.DS_PORT msg.LOAD
      (m, if result ≥ 0 then GAME_DS_REGISTER_SUCCESS else GAME_DS_REGISTER_ERROR)
    else if msg.CODE = GAME_DS_UPDATE_CODE then
      let sceneKey := SceneManager.generateSceneIDKey SERVICE_DS_PREFIX msg.SCENE_ID
      let (m, result) := m.updateScene ok conn.getIPPort sceneKey msg.LOAD
      (m, if result ≥ 0 then GAME_DS_UPDATE_SUCCESS else GAME_DS_UPDATE_ERROR)
    else if msg.CODE = GAME_DS_QUIT_CODE then
      let (m, result) := m.removeScene ok conn.getIPPort
      (m, if result ≥ 0 then GAME_DS_QUIT_SUCCESS else GAME_DS_QUIT_ERROR)
    else (m, GAME_DS_UNKNOWN_ERROR)
  (m, { MSG_NAME := msg.MSG_NAME, CODE := code, SCENE_ID := msg.SCENE_ID, SCENE_DATA := [] })

-- ---------------------------------------------------------------------------
-- Runs
-- ---------------------------------------------------------------------------

/-- One game server, with what the runs are about: the open connections, the addresses
that have been registered so far, and the connections they are registered over. A
connection lets go of its addresses when it is closed or its quit request has succeeded. -/
structure SceneRun where
  manager : SceneManager
  opened : List Connection
  registered : List Bytes
  holders : List (Connection × Bytes)

inductive SceneEvent where
  | connect (conn : Connection)
  | message (conn : Connection) (msg : DSMessage)
  /-- `checkHeartbeat` finds the connection timed out. It will be closed, too. -/
  | heartbeatTimeout (conn : Connection)
  | close (conn : Connection)
  deriving DecidableEq, Repr

namespace SceneRun

def init : SceneRun := ⟨SceneManager.init, [], [], []⟩

/-- The connection holds no address any more. -/
def letGo (s : SceneRun) (conn : Connection) : SceneRun :=
  { s with holders := s.holders.filter (·.1 ≠ conn) }

/-- A message, with all operations of Redis successful. -/
def receive (s : SceneRun) (conn : Connection) (msg : DSMessage) : SceneRun :=
  let (m, res) := dsMessageFunc s.manager true conn msg
  if res.CODE = GAME_DS_REGISTER_SUCCESS then
    { s with
      manager := m
      registered := address conn.ip msg.DS_PORT :: s.registered
      holders := (conn, address conn.ip msg.DS_PORT) :: s.holders }
  else if res.CODE = GAME_DS_QUIT_SUCCESS then { s with manager := m }.letGo conn
  else { s with manager := m }

/-- `removeScene` of the address of the connection. -/
def forget (s : SceneRun) (conn : Connection) : SceneRun :=
  { s with manager := (s.manager.removeScene true conn.getIPPort).1 }

def step (s : SceneRun) : SceneEvent → SceneRun
  | .connect conn => { s with opened := conn :: s.opened }
  | .message conn msg => if conn ∈ s.opened then s.receive conn msg else s
  | .heartbeatTimeout conn => if conn ∈ s.opened then s.forget conn else s
  | .close conn =>
      if conn ∈ s.opened then
        { (s.forget conn).letGo conn with opened := s.opened.filter (· ≠ conn) }
      else s

/-- A connection holds the address. -/
def Held (s : SceneRun) (a : Bytes) : Prop := ∃ conn, (conn, a) ∈ s.holders

/-- The address is in the sorted set of the scene. -/
def InScene (s : SceneRun) (sceneKey a : Bytes) : Prop := s.manager.sortedSets sceneKey a ≠ none

/-- A registered address that nobody holds any more is in no sorted set. -/
def Released (s : SceneRun) : Prop :=
  ∀ a ∈ s.registered, ¬ s.Held a → ∀ sceneKey, ¬ s.InScene sceneKey a

-- ---------------------------------------------------------------------------
-- Conditions
-- ---------------------------------------------------------------------------

/-- The connection that lets go of its addresses with the event. -/
def releasing? (s : SceneRun) : SceneEvent → Option Connection
  | .close conn => if conn ∈ s.opened then some conn else none
  | .message conn msg =>
      if conn ∈ s.opened ∧ msg.CODE = GAME_DS_QUIT_CODE ∧
          s.manager.mSceneAddresses conn.getIPPort ≠ none then
        some conn
      else none
  | _ => none

/-- The address that the event updates. -/
def updating? (s : SceneRun) : SceneEvent → Option Bytes
  | .message conn msg =>
      if conn ∈ s.opened ∧ msg.CODE = GAME_DS_UPDATE_CODE then some conn.getIPPort else none
  | _ => none

/-- No other connection holds the address. -/
def OnlyHolder (s : SceneRun) (conn : Connection) (a : Bytes) : Prop :=
  (conn, a) ∈ s.holders ∧ ∀ conn', (conn', a) ∈ s.holders → conn' = conn

/-- The address is in no sorted set, or else it is the connection's own one, and in the
sorted set that the map has for it only. -/
def Settled (s : SceneRun) (conn : Connection) (a : Bytes) : Prop :=
  ∀ sceneKey, s.InScene sceneKey a →
    a = conn.getIPPort ∧ s.manager.mSceneAddresses a = some sceneKey

/-- A connection that lets go has settled its addresses, and no update brings back an
address that has been given up. -/
def ReleaseSettled (s : SceneRun) (e : SceneEvent) : Prop :=
  (∀ conn, s.releasing? e = some conn → ∀ a, s.OnlyHolder conn a → s.Settled conn a) ∧
  ∀ a, s.updating? e = some a → a ∈ s.registered → s.Held a

-- ---------------------------------------------------------------------------
-- What the events do
-- ---------------------------------------------------------------------------

section

variable {s : SceneRun} {conn : Connection} {msg : DSMessage}

/-- The address that a registration takes. -/
def announced (conn : Connection) (msg : DSMessage) : Bytes := address conn.ip msg.DS_PORT

/-- The scene that a message names. -/
def sceneOf (msg : DSMessage) : Bytes :=
  SceneManager.generateSceneIDKey SERVICE_DS_PREFIX msg.SCENE_ID

/-- The address of a message is registered over the connection. -/
def enter (s : SceneRun) (conn : Connection) (msg : DSMessage) : SceneRun :=
  { s with
    manager :=
      { mSceneAddresses := Function.update s.manager.mSceneAddresses (announced conn msg)
          (some (sceneOf msg))
        sortedSets := (sortedAdd s.manager.sortedSets true (sceneOf msg)
          (announced conn msg) msg.LOAD).1 }
    registered := announced conn msg :: s.registered
    holders := (conn, announced conn msg) :: s.holders }

/-- The address of the connection is updated in a scene. -/
def refresh (s : SceneRun) (conn : Connection) (msg : DSMessage) : SceneRun :=
  { s with
    manager :=
      { s.manager with
        sortedSets := (sortedAdd s.manager.sortedSets true (sceneOf msg) conn.getIPPort
          msg.LOAD).1 } }

theorem sortedAdd_result {sets : SortedSets} {key member : Bytes} {score : Int} :
    (sortedAdd sets true key member score).2 ≥ 0 := by
  show (if _ then (1 : Int) else 0) ≥ 0
  split <;> omega

theorem sortedRemove_result {sets : SortedSets} {key member : Bytes} :
    (sortedRemove sets true key member).2 ≥ 0 := by
  show (if _ then (1 : Int) else 0) ≥ 0
  split <;> omega

theorem receive_register (hCode : msg.CODE = GAME_DS_REGISTER_CODE) :
    s.receive conn msg =
      if s.manager.mSceneAddresses (announced conn msg) = none then s.enter conn msg else s := by
  rw [announced]
  split
  · rename_i hNew
    simp only [receive, dsMessageFunc, if_pos hCode, SceneManager.registerScene, hNew,
      Option.isNone_none, sortedAdd_result, if_true]
    rfl
  · -- the address is taken
    rename_i hOld
    have hSome : ¬ (s.manager.mSceneAddresses (address conn.ip msg.DS_PORT)).isNone = true := by
      rw [Option.isNone_iff_eq_none]
      exact hOld
    simp only [receive, dsMessageFunc, if_pos hCode, SceneManager.registerScene, if_neg hSome]
    rfl

theorem receive_update (hCode : msg.CODE = GAME_DS_UPDATE_CODE) :
    s.receive conn msg = s.refresh conn msg := by
  have hNot : msg.CODE ≠ GAME_DS_REGISTER_CODE := by
    rw [hCode]
    decide
  simp only [receive, dsMessageFunc, if_neg hNot, if_pos hCode, SceneManager.updateScene,
    sortedAdd_result, if_true]
  rfl

theorem receive_quit (hCode : msg.CODE = GAME_DS_QUIT_CODE) :
    s.receive conn msg =
      if s.manager.mSceneAddresses conn.getIPPort = none then s
      else (s.forget conn).letGo conn := by
  have hNot : msg.CODE ≠ GAME_DS_REGISTER_CODE := by
    rw [hCode]
    decide
  have hNot' : msg.CODE ≠ GAME_DS_UPDATE_CODE := by
    rw [hCode]
    decide
  split
  · -- the quit is answered with an error
    rename_i hUnknown
    simp only [receive, dsMessageFunc, if_neg hNot, if_neg hNot', if_pos hCode,
      SceneManager.removeScene, hUnknown]
    rfl
  · rename_i hKnown
    obtain ⟨sceneKey, hScene⟩ := Option.ne_none_iff_exists'.mp hKnown
    simp only [receive, dsMessageFunc, if_neg hNot, if_neg hNot', if_pos hCode,
      SceneManager.removeScene, hScene, sortedRemove_result, if_true, forget]
    rfl

theorem receive_other (hRegister : msg.CODE ≠ GAME_DS_REGISTER_CODE)
    (hUpdate : msg.CODE ≠ GAME_DS_UPDATE_CODE) (hQuit : msg.CODE ≠ GAME_DS_QUIT_CODE) :
    s.receive conn msg = s := by
  simp only [receive, dsMessageFunc, if_neg hRegister, if_neg hUpdate, if_neg hQuit]
  rfl

/-- All that a message over an open connection can do: nothing, enter an address, update
the one of the connection, or make the connection let go. -/
theorem receive_cases (s : SceneRun) {conn : Connection} (msg : DSMessage)
    (hOpen : conn ∈ s.opened) :
    ((s.receive conn msg = s ∨ s.receive conn msg = s.enter conn msg) ∧
      s.releasing? (.message conn msg) = none ∧ s.updating? (.message conn msg) = none) ∨
    (s.receive conn msg = s.refresh conn msg ∧
      s.releasing? (.message conn msg) = none ∧
        s.updating? (.message conn msg) = some conn.getIPPort) ∨
    (s.receive conn msg = (s.forget conn).letGo conn ∧
      s.releasing? (.message conn msg) = some conn ∧
        s.updating? (.message conn msg) = none) := by
  by_cases hRegister : msg.CODE = GAME_DS_REGISTER_CODE
  · refine Or.inl ⟨?_, if_neg fun hAll => ?_, if_neg fun hBoth => ?_⟩
    · rw [receive_register hRegister]
      split
      · exact Or.inr rfl
      · exact Or.inl rfl
    · exact absurd (hRegister.symm.trans hAll.2.1) (by decide)
    · exact absurd (hRegister.symm.trans hBoth.2) (by decide)
  by_cases hUpdate : msg.CODE = GAME_DS_UPDATE_CODE
  · refine Or.inr (Or.inl ⟨receive_update hUpdate, if_neg fun hAll => ?_, if_pos ⟨hOpen, hUpdate⟩⟩)
    exact absurd (hUpdate.symm.trans hAll.2.1) (by decide)
  have hUpdating : s.updating? (.message conn msg) = none := if_neg fun hBoth => hUpdate hBoth.2
  by_cases hQuit : msg.CODE = GAME_DS_QUIT_CODE
  · rw [receive_quit hQuit]
    split
    · rename_i hUnknown
      exact Or.inl ⟨Or.inl rfl, if_neg fun hAll => hAll.2.2 hUnknown, hUpdating⟩
    · rename_i hKnown
      exact Or.inr (Or.inr ⟨rfl, if_pos ⟨hOpen, hQuit, hKnown⟩, hUpdating⟩)
  · exact Or.inl ⟨Or.inl (receive_other hRegister hUpdate hQuit),
      if_neg fun hAll => hQuit hAll.2.1, hUpdating⟩

theorem sortedAdd_ne_none {sets : SortedSets} {key member key' member' : Bytes} {score : Int} :
    (sortedAdd sets true key member score).1 key' member' ≠ none ↔
      (key' = key ∧ member' = member) ∨ sets key' member' ≠ none := by
  show Function.update sets key (Function.update (sets key) member (some score)) key' member' ≠
    none ↔ _
  by_cases hKey : key' = key
  · subst hKey
    by_cases hMember : member' = member
    · subst hMember
      simp
    · simp [hMember]
  · simp [hKey]

theorem sortedRemove_ne_none {sets : SortedSets} {key member key' member' : Bytes} :
    (sortedRemove sets true key member).1 key' member' ≠ none ↔
      sets key' member' ≠ none ∧ ¬ (key' = key ∧ member' = member) := by
  show Function.update sets key (Function.update (sets key) member none) key' member' ≠
    none ↔ _
  by_cases hKey : key' = key
  · subst hKey
    by_cases hMember : member' = member
    · subst hMember
      simp
    · simp [hMember]
  · simp [hKey]

/-- `removeScene` takes the address out of the one scene the map has for it. -/
theorem inScene_forget {sceneKey a : Bytes} :
    (s.forget conn).InScene sceneKey a ↔ s.InScene sceneKey a ∧
      ¬ (a = conn.getIPPort ∧ s.manager.mSceneAddresses a = some sceneKey) := by
  unfold InScene forget SceneManager.removeScene
  cases hScene : s.manager.mSceneAddresses conn.getIPPort with
  | none =>
    refine ⟨fun h => ⟨h, ?_⟩, fun h => h.1⟩
    rintro ⟨rfl, hOther⟩
    rw [hScene] at hOther
    cases hOther
  | some key =>
    refine sortedRemove_ne_none.trans (and_congr_right fun _ => not_congr ?_)
    constructor
    · rintro ⟨rfl, rfl⟩
      exact ⟨rfl, hScene⟩
    · rintro ⟨rfl, hOther⟩
      rw [hScene, Option.some.injEq] at hOther
      exact ⟨hOther.symm, rfl⟩

theorem held_letGo {a : Bytes} :
    (s.letGo conn).Held a ↔ ∃ conn', (conn', a) ∈ s.holders ∧ conn' ≠ conn := by
  simp [Held, letGo]

end

-- ---------------------------------------------------------------------------
-- One event
-- ---------------------------------------------------------------------------

/-- Only registered addresses are held. -/
def Known (s : SceneRun) : Prop := ∀ a, s.Held a → a ∈ s.registered

section

variable {s : SceneRun} {conn : Connection}

/-- A connection that lets go. -/
theorem released_letGo_iff (hKnown : s.Known) (h : s.Released) :
    ((s.forget conn).letGo conn).Released ↔ ∀ a, s.OnlyHolder conn a → s.Settled conn a := by
  constructor
  · rintro hAfter a ⟨hHolds, hOnly⟩ sceneKey hIn
    -- nobody holds the address any more, so it has to be gone from the set
    have hNobody : ¬ ((s.forget conn).letGo conn).Held a := by
      rw [held_letGo]
      rintro ⟨conn', hOther, hNe⟩
      exact hNe (hOnly conn' hOther)
    by_contra hOut
    exact hAfter a (hKnown a ⟨conn, hHolds⟩) hNobody sceneKey (inScene_forget.mpr ⟨hIn, hOut⟩)
  · intro hSettled a hRegistered hNobody sceneKey hIn
    obtain ⟨hBefore, hOut⟩ := inScene_forget.mp hIn
    by_cases hHeld : s.Held a
    · -- it was this connection that held it, and no other
      have hOnly : ∀ conn', (conn', a) ∈ s.holders → conn' = conn := by
        intro conn' hOther
        by_contra hNe
        exact hNobody (held_letGo.mpr ⟨conn', hOther, hNe⟩)
      obtain ⟨conn', hHolds⟩ := hHeld
      obtain rfl := hOnly conn' hHolds
      exact hOut (hSettled a ⟨hHolds, hOnly⟩ sceneKey hBefore)
    · exact h a hRegistered hHeld sceneKey hBefore

/-- A registration adds a held address. -/
theorem released_enter {msg : DSMessage} (h : s.Released) : (s.enter conn msg).Released := by
  intro b hb hNobody sceneKey hIn
  have hNe : b ≠ announced conn msg := by
    rintro rfl
    exact hNobody ⟨conn, List.mem_cons_self⟩
  rcases sortedAdd_ne_none.mp hIn with ⟨-, hSame⟩ | hBefore
  · exact hNe hSame
  · have hOld : b ∈ s.registered := (List.mem_cons.mp hb).resolve_left hNe
    refine h b hOld ?_ sceneKey hBefore
    rintro ⟨conn', hHolds⟩
    exact hNobody ⟨conn', List.mem_cons_of_mem _ hHolds⟩

/-- An update brings the address into the set, which is harmless unless it has been
given up. -/
theorem released_refresh_iff {msg : DSMessage} (h : s.Released) :
    (s.refresh conn msg).Released ↔ (conn.getIPPort ∈ s.registered → s.Held conn.getIPPort) := by
  constructor
  · intro hAfter hOld
    by_contra hNobody
    exact hAfter conn.getIPPort hOld hNobody (sceneOf msg)
      (sortedAdd_ne_none.mpr (Or.inl ⟨rfl, rfl⟩))
  · intro hGiven b hb hNobody sceneKey hIn
    rcases sortedAdd_ne_none.mp hIn with ⟨-, rfl⟩ | hBefore
    · exact hNobody (hGiven hb)
    · exact h b hb hNobody sceneKey hBefore

/-- Nothing is asked of an event that neither lets go nor updates. -/
theorem releaseSettled_idle {e : SceneEvent} (hReleasing : s.releasing? e = none)
    (hUpdating : s.updating? e = none) : s.ReleaseSettled e := by
  constructor
  · intro conn h
    rw [hReleasing] at h
    cases h
  · intro a h
    rw [hUpdating] at h
    cases h

theorem releaseSettled_releasing {e : SceneEvent} (hReleasing : s.releasing? e = some conn)
    (hUpdating : s.updating? e = none) :
    s.ReleaseSettled e ↔ ∀ a, s.OnlyHolder conn a → s.Settled conn a := by
  refine ⟨fun h => h.1 conn hReleasing, fun h => ⟨fun conn' hConn => ?_, fun a hUpdate => ?_⟩⟩
  · rw [hReleasing, Option.some.injEq] at hConn
    exact hConn ▸ h
  · rw [hUpdating] at hUpdate
    cases hUpdate

theorem releaseSettled_updating {e : SceneEvent} {a : Bytes} (hReleasing : s.releasing? e = none)
    (hUpdating : s.updating? e = some a) :
    s.ReleaseSettled e ↔ (a ∈ s.registered → s.Held a) := by
  refine ⟨fun h => h.2 a hUpdating, fun h => ⟨fun conn hConn => ?_, fun a' hUpdate => ?_⟩⟩
  · rw [hReleasing] at hConn
    cases hConn
  · rw [hUpdating, Option.some.injEq] at hUpdate
    exact hUpdate ▸ h

/-- A message over an open connection. -/
theorem receive_released_iff {msg : DSMessage} (hKnown : s.Known) (h : s.Released)
    (hOpen : conn ∈ s.opened) :
    (s.receive conn msg).Released ↔ s.ReleaseSettled (.message conn msg) := by
  rcases s.receive_cases msg hOpen with ⟨hKept, hReleasing, hUpdating⟩ |
    ⟨hRefresh, hReleasing, hUpdating⟩ | ⟨hLetGo, hReleasing, hUpdating⟩
  · refine iff_of_true ?_ (releaseSettled_idle hReleasing hUpdating)
    rcases hKept with hSame | hEnter
    · rw [hSame]
      exact h
    · rw [hEnter]
      exact released_enter h
  · rw [hRefresh, releaseSettled_updating hReleasing hUpdating]
    exact released_refresh_iff h
  · rw [hLetGo, releaseSettled_releasing hReleasing hUpdating]
    exact released_letGo_iff hKnown h

/-- **One event.** -/
theorem release_settled_iff (hKnown : s.Known) (h : s.Released) (e : SceneEvent) :
    (s.step e).Released ↔ s.ReleaseSettled e := by
  cases e with
  | connect conn => exact ⟨fun _ => releaseSettled_idle rfl rfl, fun _ => h⟩
  | message conn msg =>
    by_cases hOpen : conn ∈ s.opened
    · rw [step, if_pos hOpen]
      exact receive_released_iff hKnown h hOpen
    · rw [step, if_neg hOpen]
      exact ⟨fun _ => releaseSettled_idle (if_neg fun hAll => hOpen hAll.1)
        (if_neg fun hBoth => hOpen hBoth.1), fun _ => h⟩
  | heartbeatTimeout conn =>
    refine ⟨fun _ => releaseSettled_idle rfl rfl, fun _ => ?_⟩
    rw [step]
    split
    · exact fun a ha hNobody sceneKey hIn => h a ha hNobody sceneKey (inScene_forget.mp hIn).1
    · exact h
  | close conn =>
    by_cases hOpen : conn ∈ s.opened
    · have hReleasing : s.releasing? (.close conn) = some conn := if_pos hOpen
      rw [step, if_pos hOpen, releaseSettled_releasing hReleasing rfl]
      exact released_letGo_iff hKnown h
    · rw [step, if_neg hOpen]
      exact ⟨fun _ => releaseSettled_idle (if_neg hOpen) rfl, fun _ => h⟩

/-- Held addresses stay registered ones. -/
theorem known_step (hKnown : s.Known) (e : SceneEvent) : (s.step e).Known := by
  have hForget (conn : Connection) : ((s.forget conn).letGo conn).Known := by
    rintro a hHeld
    obtain ⟨conn', hHolds, -⟩ := held_letGo.mp hHeld
    exact hKnown a ⟨conn', hHolds⟩
  cases e with
  | connect conn => exact hKnown
  | message conn msg =>
    by_cases hOpen : conn ∈ s.opened
    · rw [step, if_pos hOpen]
      rcases s.receive_cases msg hOpen with ⟨hSame | hEnter, -⟩ | ⟨hRefresh, -⟩ | ⟨hLetGo, -⟩
      · rw [hSame]
        exact hKnown
      · rw [hEnter]
        rintro a ⟨conn', hHolds⟩
        rcases List.mem_cons.mp hHolds with hHead | hRest
        · cases hHead
          exact List.mem_cons_self
        · exact List.mem_cons_of_mem _ (hKnown a ⟨conn', hRest⟩)
      · rw [hRefresh]
        exact hKnown
      · rw [hLetGo]
        exact hForget conn
    · rw [step, if_neg hOpen]
      exact hKnown
  | heartbeatTimeout conn =>
    rw [step]
    split
    · exact hKnown
    · exact hKnown
  | close conn =>
    rw [step]
    split
    · exact hForget conn
    · exact hKnown

end

theorem init_known : init.Known := by
  rintro a ⟨conn, hHolds⟩
  cases hHolds

theorem init_released : init.Released := fun _ ha => by cases ha

-- ---------------------------------------------------------------------------
-- Runs
-- ---------------------------------------------------------------------------

/-- **Scenes and servers.** At every point of a run, no registered address that nobody
holds any more is in a sorted set — exactly if every connection that lets go has settled
its addresses, and no update brings one back. -/
theorem scenes_released_iff (es : List SceneEvent) :
    Always step Released init es ↔ Each step ReleaseSettled init es :=
  always_iff_each (fun s _ => s.Known) (fun _ e _ hKnown _ _ => known_step hKnown e)
    (fun _ e _ hKnown h => release_settled_iff hKnown h e) init_released init_known

/-- A DS on 10.0.0.1, with the source port 40000 of its connection, announces port 7777. -/
def lingering : List SceneEvent :=
  let conn : Connection := ⟨literal "G_fd9", literal "10.0.0.1", 40000⟩
  [.connect conn, .message conn ⟨literal "DS", GAME_DS_REGISTER_CODE, 7777, 1, 0⟩, .close conn]

/-- Its scene stays behind when the connection is closed. -/
theorem scene_lingers : ¬ Always step Released init lingering := by
  intro h
  have hHolders : (final step init lingering).holders = [] := by decide
  have hNobody : ¬ (final step init lingering).Held (literal "10.0.0.1:7777") := by
    rintro ⟨conn, hHolds⟩
    rw [hHolders] at hHolds
    cases hHolds
  refine h.final _ (by decide) hNobody (literal "Warring:Scene:1") ?_
  unfold InScene
  decide

end SceneRun

end WarringServer.GameServer
