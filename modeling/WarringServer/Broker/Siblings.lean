import WarringServer.Broker.RSBrokerManager
import WarringServer.DBServer.QueryTask
import WarringServer.Lib.Run

/-!
# Siblings — whom an entry is transferred to

`handlePending` goes over all registered keys. It collects the groups that have something
pending, then the consumers of these groups, and then goes through what these have pending.
Siblings are looked up in `mPendingGroupsSibling`, which has one entry for each name of a group,
whatever key the group is on.

Each command is one step, and finds Redis as the other processes have left it.

* `inv_step` — the entry of a group holds what was reported for its name in this pass;
* `claims_real_iff` — over every run: when the sibling is one of the entry's own stream;
* `realSibling_of_unshared` — names that no two keys share are enough for it.
-/

namespace WarringServer.Broker

open Message ConsumerGroup Run DBServer

-- ---------------------------------------------------------------------------
-- Redis, as a command finds it
-- ---------------------------------------------------------------------------

/-- Of `XINFO GROUPS`. -/
structure GroupInfo where
  name : Bytes
  pending : Nat
  deriving DecidableEq, Repr

/-- Of `XINFO CONSUMERS`. -/
structure ConsumerInfo where
  name : Bytes
  pending : Nat
  deriving DecidableEq, Repr

/-- What Redis answers, `none` for an error. -/
structure Redis where
  groupsInfo : Bytes → Option (List GroupInfo)
  consumersInfo : Bytes → Bytes → Option (List ConsumerInfo)
  /-- `XPENDING key group - + count consumer` -/
  pending : Bytes → Bytes → Bytes → Nat → Option (List (PendingItem Bytes))
  /-- `XACK` and `XDEL` throw. -/
  refuses : Bool

/-- What changes something in Redis. -/
inductive Command where
  | ack (key group : Bytes) (id : Nat)
  | del (key : Bytes) (id : Nat)
  | claim (key group consumer : Bytes) (milliseconds id : Nat)
  deriving DecidableEq, Repr

-- ---------------------------------------------------------------------------
-- The manager
-- ---------------------------------------------------------------------------

/-- Where `handlePending` stands. -/
inductive Loop where
  | nap
  /-- `for (const auto &key : mKeys)` -/
  | groups (keys : List Bytes)
  /-- `while (!mPendingGroupQueue.empty())` -/
  | consumers
  /-- `while (!mPendingConsumerQueue.empty())` -/
  | queue
  /-- `for (const auto &pendingItem : pendingItems)` -/
  | items (key group : Bytes) (pendingItems : List (PendingItem Bytes))
  /-- `del` of a dead letter. -/
  | del (key group : Bytes) (id : Nat) (pendingItems : List (PendingItem Bytes))
  /-- An exception has left `run`. -/
  | thrown
  deriving DecidableEq, Repr

structure RSBrokerManager where
  loop : Loop
  mKeys : List Bytes
  mPendingGroupQueue : List (Bytes × Bytes)
  /-- Key, group, consumer and the number of its pending entries. -/
  mPendingConsumerQueue : List (Bytes × Bytes × Bytes × Nat)
  mPendingGroupsSibling : Bytes → Option (List Bytes)

namespace RSBrokerManager

def new : RSBrokerManager := ⟨.nap, [], [], [], fun _ => none⟩

def registerKey (m : RSBrokerManager) (key : Bytes) : RSBrokerManager × Bool :=
  ({ m with mKeys := setInsert key m.mKeys }, key ∉ m.mKeys)

def pushPendingGroups (m : RSBrokerManager) (key : Bytes) (groupsInfo : List GroupInfo) :
    RSBrokerManager :=
  groupsInfo.foldl (fun m groupInfo =>
    { m with
      mPendingGroupQueue :=
        if groupInfo.pending > 0 then m.mPendingGroupQueue ++ [(key, groupInfo.name)]
        else m.mPendingGroupQueue
      mPendingGroupsSibling := Function.update m.mPendingGroupsSibling groupInfo.name (some []) }) m

def pushPendingConsumers (m : RSBrokerManager) (key group : Bytes)
    (consumersInfo : List ConsumerInfo) : RSBrokerManager :=
  consumersInfo.foldl (fun m consumerInfo =>
    { m with
      mPendingConsumerQueue :=
        if consumerInfo.pending > 0 then
          m.mPendingConsumerQueue ++ [(key, group, consumerInfo.name, consumerInfo.pending)]
        else m.mPendingConsumerQueue
      mPendingGroupsSibling :=
        match m.mPendingGroupsSibling group with
        | some siblings =>
          Function.update m.mPendingGroupsSibling group
            (some (setInsert consumerInfo.name siblings))
        | none => m.mPendingGroupsSibling }) m

/-- The empty string if there is none. -/
def getOneSibling (m : RSBrokerManager) (group consumer : Bytes) : Bytes :=
  match m.mPendingGroupsSibling group with
  | some siblings => (siblings.find? (· ≠ consumer)).getD []
  | none => []

/-- The next command of the pass, with what it changes in Redis. -/
def step (c : Settings) (m : RSBrokerManager) (redis : Redis) :
    RSBrokerManager × Option Command :=
  match m.loop with
  | .nap => ({ m with loop := .groups m.mKeys }, none)
  | .groups [] => ({ m with loop := .consumers }, none)
  | .groups (key :: keys) =>
    ({ m.pushPendingGroups key ((redis.groupsInfo key).getD []) with loop := .groups keys }, none)
  | .consumers =>
    match m.mPendingGroupQueue with
    | [] => ({ m with loop := .queue }, none)
    | (key, group) :: mPendingGroupQueue =>
      ({ m.pushPendingConsumers key group ((redis.consumersInfo key group).getD []) with
          mPendingGroupQueue := mPendingGroupQueue }, none)
  | .queue =>
    match m.mPendingConsumerQueue with
    | [] => ({ m with loop := .nap }, none)
    | (key, group, consumer, pendingNum) :: _ =>
      ({ m with loop := .items key group ((redis.pending key group consumer pendingNum).getD []) },
        none)
  | .items _ _ [] =>
    ({ m with loop := .queue, mPendingConsumerQueue := m.mPendingConsumerQueue.tail }, none)
  | .items key group (item :: pendingItems) =>
    if item.deliveredNum > c.mMaxDelivered then
      ({ m with loop := if redis.refuses then .thrown else .del key group item.id pendingItems },
        some (.ack key group item.id))
    else if item.idle > c.mTolerantMilliseconds then
      ({ m with loop := if redis.refuses then .thrown else .items key group pendingItems },
        some (.ack key group item.id))
    else if item.idle > c.mTransferMilliseconds then
      let sibling := m.getOneSibling group item.consumer
      ({ m with loop := .items key group pendingItems },
        if sibling ≠ [] then some (.claim key group sibling c.mTransferMilliseconds item.id)
        else none)
    else
      ({ m with loop := .items key group pendingItems }, none)
  | .del key group id pendingItems =>
    ({ m with loop := if redis.refuses then .thrown else .items key group pendingItems },
      some (.del key id))
  | .thrown => (m, none)

end RSBrokerManager

/-- The manager, and what `XINFO CONSUMERS` has reported in the pass: keys, groups, consumers. -/
structure Watched where
  manager : RSBrokerManager
  reported : List (Bytes × Bytes × Bytes)

namespace Watched

/-- The keys are registered before `run`. -/
def start (keys : List Bytes) : Watched :=
  ⟨keys.foldl (fun m key => (m.registerKey key).1) .new, []⟩

def step (c : Settings) (s : Watched) (redis : Redis) : Watched where
  manager := (s.manager.step c redis).1
  reported :=
    match s.manager.loop, s.manager.mPendingGroupQueue with
    | .nap, _ => []
    | .consumers, (key, group) :: _ =>
      s.reported ++ ((redis.consumersInfo key group).getD []).map fun consumerInfo =>
        (key, group, consumerInfo.name)
    | _, _ => s.reported

/-- A claim is for the entry the pass has come to, and names another consumer, which was
reported in this pass for the key and the group of the entry. -/
def RealSibling (c : Settings) (s : Watched) (redis : Redis) : Prop :=
  ∀ key group sibling milliseconds id,
    (s.manager.step c redis).2 = some (.claim key group sibling milliseconds id) →
      ∃ item pendingItems, s.manager.loop = .items key group (item :: pendingItems) ∧
        item.id = id ∧ sibling ≠ item.consumer ∧ (key, group, sibling) ∈ s.reported

end Watched

-- ---------------------------------------------------------------------------
-- A set of strings
-- ---------------------------------------------------------------------------

/-- The first of those with the property, in the order of a `std::set`. -/
def First (P : Bytes → Prop) (name : Bytes) : Prop :=
  P name ∧ ∀ name', P name' → name = name' ∨ name < name'

section

variable {a b c : Bytes} {names : List Bytes}

theorem bytes_lt_trans (hab : a < b) (hbc : b < c) : a < c :=
  have : Trans (α := UInt8) (· < ·) (· < ·) (· < ·) := ⟨UInt8.lt_trans⟩
  List.lt_trans hab hbc

theorem bytes_lt_irrefl (a : Bytes) : ¬ a < a :=
  have : Std.Irrefl (α := UInt8) (· < ·) := ⟨UInt8.lt_irrefl⟩
  List.lt_irrefl a

theorem bytes_lt_of_not_lt (hNot : ¬ a < b) (hNe : a ≠ b) : b < a := by
  have : Std.Trichotomous (α := UInt8) (· < ·) :=
    ⟨fun _ _ hc hd => UInt8.le_antisymm (UInt8.not_lt.mp hd) (UInt8.not_lt.mp hc)⟩
  by_contra hOther
  exact hNe (List.le_antisymm (List.not_lt.mp hOther) (List.not_lt.mp hNot))

@[simp] theorem mem_setInsert : a ∈ setInsert c names ↔ a = c ∨ a ∈ names := by
  induction names with
  | nil => simp [setInsert]
  | cons d names ih =>
    unfold setInsert
    split
    · simp
    · split
      · rename_i hSame
        simp [hSame]
      · rw [List.mem_cons, ih, List.mem_cons]
        tauto

theorem setInsert_pairwise (h : names.Pairwise (· < ·)) : (setInsert c names).Pairwise (· < ·) := by
  induction names with
  | nil => simp [setInsert]
  | cons d names ih =>
    obtain ⟨hFirst, hRest⟩ := List.pairwise_cons.mp h
    unfold setInsert
    split
    · rename_i hLt
      refine List.pairwise_cons.mpr ⟨?_, h⟩
      intro b hb
      rcases List.mem_cons.mp hb with rfl | hb
      · exact hLt
      · exact bytes_lt_trans hLt (hFirst b hb)
    · rename_i hNot
      split
      · exact h
      · rename_i hNe
        refine List.pairwise_cons.mpr ⟨?_, ih hRest⟩
        intro b hb
        rcases mem_setInsert.mp hb with rfl | hb
        · exact bytes_lt_of_not_lt hNot hNe
        · exact hFirst b hb

theorem setInsert_all (infos : List ConsumerInfo) (h : names.Pairwise (· < ·)) :
    (infos.foldl (fun names i => setInsert i.name names) names).Pairwise (· < ·) ∧
      ∀ name, name ∈ infos.foldl (fun names i => setInsert i.name names) names ↔
        name ∈ names ∨ ∃ i ∈ infos, i.name = name := by
  induction infos generalizing names with
  | nil => simpa using h
  | cons i infos ih =>
    obtain ⟨hSorted, hMem⟩ := ih (setInsert_pairwise (c := i.name) h)
    refine ⟨hSorted, fun name => ?_⟩
    rw [List.foldl_cons, hMem, mem_setInsert, List.exists_mem_cons_iff, eq_comm, or_assoc,
      or_left_comm]

/-- `std::find_if` over a set finds the first one. -/
theorem find_eq_some_iff {p : Bytes → Bool} (h : names.Pairwise (· < ·)) :
    names.find? p = some a ↔ First (fun b => p b = true ∧ b ∈ names) a := by
  induction names with
  | nil => simp [First]
  | cons d names ih =>
    obtain ⟨hFirst, hRest⟩ := List.pairwise_cons.mp h
    cases hp : p d with
    | true =>
      rw [List.find?_cons_of_pos hp, Option.some.injEq]
      constructor
      · rintro rfl
        refine ⟨⟨hp, List.mem_cons_self⟩, ?_⟩
        rintro b ⟨-, hb⟩
        rcases List.mem_cons.mp hb with rfl | hb
        · exact Or.inl rfl
        · exact Or.inr (hFirst b hb)
      · rintro ⟨⟨-, ha⟩, hLeast⟩
        rcases List.mem_cons.mp ha with rfl | ha
        · rfl
        · rcases hLeast d ⟨hp, List.mem_cons_self⟩ with hEq | hLt
          · exact hEq.symm
          · exact absurd (bytes_lt_trans hLt (hFirst a ha)) (bytes_lt_irrefl a)
    | false =>
      rw [List.find?_cons_of_neg (by simp [hp]), ih hRest]
      have hSame : (fun b => p b = true ∧ b ∈ names) = fun b => p b = true ∧ b ∈ d :: names := by
        funext b
        rw [List.mem_cons, eq_iff_iff]
        constructor
        · rintro ⟨hpb, hb⟩
          exact ⟨hpb, Or.inr hb⟩
        · rintro ⟨hpb, rfl | hb⟩
          · rw [hp] at hpb
            cases hpb
          · exact ⟨hpb, hb⟩
      rw [hSame]

end

/-- The item is to be transferred. -/
def ToTransfer (c : Settings) (item : PendingItem Bytes) : Prop :=
  item.deliveredNum ≤ c.mMaxDelivered ∧ item.idle ≤ c.mTolerantMilliseconds ∧
    item.idle > c.mTransferMilliseconds

namespace Watched

/-- An entry that is to be transferred: of all consumers reported in this pass for the name of
its group, on whatever key, the first one that does not have the entry has no name or was
reported for the key of the entry. -/
def FirstIsOwn (c : Settings) (s : Watched) : Prop :=
  ∀ key group item pendingItems, s.manager.loop = .items key group (item :: pendingItems) →
    ToTransfer c item → ∀ name,
      First (fun name => name ≠ item.consumer ∧ ∃ key, (key, group, name) ∈ s.reported) name →
        name = [] ∨ (key, group, name) ∈ s.reported

end Watched

-- ---------------------------------------------------------------------------
-- The collection loops
-- ---------------------------------------------------------------------------

namespace RSBrokerManager

section

variable {m : RSBrokerManager} {key group : Bytes}

/-- Nothing has been collected yet for the groups in the queue. -/
def Cleared (m : RSBrokerManager) : Prop :=
  ∀ key group, (key, group) ∈ m.mPendingGroupQueue → m.mPendingGroupsSibling group = some []

theorem pushPendingGroups_cons {groupInfo : GroupInfo} {groupsInfo : List GroupInfo} :
    m.pushPendingGroups key (groupInfo :: groupsInfo) =
      (m.pushPendingGroups key [groupInfo]).pushPendingGroups key groupsInfo := rfl

theorem pushPendingGroups_consumers (key : Bytes) (groupsInfo : List GroupInfo) :
    (m.pushPendingGroups key groupsInfo).mPendingConsumerQueue = m.mPendingConsumerQueue := by
  induction groupsInfo generalizing m with
  | nil => rfl
  | cons groupInfo groupsInfo ih =>
    rw [pushPendingGroups_cons]
    exact ih

theorem Cleared.pushPendingGroups (h : m.Cleared) (key : Bytes) (groupsInfo : List GroupInfo) :
    (m.pushPendingGroups key groupsInfo).Cleared := by
  induction groupsInfo generalizing m with
  | nil => exact h
  | cons groupInfo groupsInfo ih =>
    rw [pushPendingGroups_cons]
    refine ih ?_
    intro key' group hMem
    show Function.update m.mPendingGroupsSibling groupInfo.name (some []) group = some []
    by_cases hName : group = groupInfo.name
    · rw [hName, Function.update_self]
    · rw [Function.update_of_ne hName]
      -- the new one in the queue is the one that has just been cleared
      have hOld : (key', group) ∈ m.mPendingGroupQueue := by
        change (key', group) ∈ (if groupInfo.pending > 0 then
          m.mPendingGroupQueue ++ [(key, groupInfo.name)] else m.mPendingGroupQueue) at hMem
        split at hMem
        · rcases List.mem_append.mp hMem with hMem | hMem
          · exact hMem
          · exact absurd (Prod.mk.inj (List.mem_singleton.mp hMem)).2 hName
        · exact hMem
      exact h key' group hOld

theorem pushPendingConsumers_cons {consumerInfo : ConsumerInfo}
    {consumersInfo : List ConsumerInfo} :
    m.pushPendingConsumers key group (consumerInfo :: consumersInfo) =
      (m.pushPendingConsumers key group [consumerInfo]).pushPendingConsumers key group
        consumersInfo := rfl

/-- Those with pending entries are queued, and all names go to the entry of the group. -/
theorem pushPendingConsumers_eq {siblings : List Bytes}
    (h : m.mPendingGroupsSibling group = some siblings) (key : Bytes)
    (consumersInfo : List ConsumerInfo) :
    m.pushPendingConsumers key group consumersInfo =
      { m with
        mPendingConsumerQueue :=
          m.mPendingConsumerQueue ++ (consumersInfo.filter (·.pending > 0)).map fun i =>
            (key, group, i.name, i.pending)
        mPendingGroupsSibling := Function.update m.mPendingGroupsSibling group
          (some (consumersInfo.foldl (fun names i => setInsert i.name names) siblings)) } := by
  induction consumersInfo generalizing m siblings with
  | nil =>
    obtain ⟨loop, keys, groupQueue, consumerQueue, table⟩ := m
    dsimp only at h
    simp [pushPendingConsumers, ← h]
  | cons consumerInfo consumersInfo ih =>
    have hOne : m.pushPendingConsumers key group [consumerInfo] =
        { m with
          mPendingConsumerQueue :=
            if consumerInfo.pending > 0 then
              m.mPendingConsumerQueue ++ [(key, group, consumerInfo.name, consumerInfo.pending)]
            else m.mPendingConsumerQueue
          mPendingGroupsSibling := Function.update m.mPendingGroupsSibling group
            (some (setInsert consumerInfo.name siblings)) } := by
      simp [pushPendingConsumers, h]
    rw [pushPendingConsumers_cons, hOne, ih (Function.update_self ..), Function.update_idem,
      List.foldl_cons]
    by_cases hPending : consumerInfo.pending > 0
    · simp [hPending]
    · simp [hPending]

end

end RSBrokerManager

-- ---------------------------------------------------------------------------
-- An item
-- ---------------------------------------------------------------------------

/-- Key and group of the items the pass goes through. -/
def Loop.stream : Loop → Option (Bytes × Bytes)
  | .items key group _ | .del key group _ _ => some (key, group)
  | .nap | .groups _ | .consumers | .queue | .thrown => none

/-- The pass goes through items of this stream, or has ended with an exception. -/
def Loop.Within (key group : Bytes) (loop : Loop) : Prop :=
  loop = .thrown ∨ loop.stream = some (key, group)

namespace RSBrokerManager

section

variable {c : Settings} {m : RSBrokerManager} {redis : Redis} {key group : Bytes}
  {item : PendingItem Bytes} {pendingItems : List (PendingItem Bytes)}

/-- After an item the pass is still within the stream. -/
theorem step_items (c : Settings) (redis : Redis)
    (hLoop : m.loop = .items key group (item :: pendingItems)) :
    ∃ loop, (m.step c redis).1 = { m with loop := loop } ∧ loop.Within key group := by
  have hRefuses : ∀ loop : Loop, loop.stream = some (key, group) →
      (if redis.refuses = true then Loop.thrown else loop).Within key group := by
    intro loop hStream
    by_cases hThrown : redis.refuses = true
    · rw [if_pos hThrown]
      exact Or.inl rfl
    · rw [if_neg hThrown]
      exact Or.inr hStream
  unfold step
  rw [hLoop]
  dsimp only
  split
  · exact ⟨_, rfl, hRefuses _ rfl⟩
  · split
    · exact ⟨_, rfl, hRefuses _ rfl⟩
    · split
      all_goals exact ⟨_, rfl, Or.inr rfl⟩

/-- **A claim** is issued for an item that is to be transferred, with the sibling that the table
has for it. -/
theorem step_claim_iff {sibling : Bytes} {milliseconds id : Nat} :
    (m.step c redis).2 = some (.claim key group sibling milliseconds id) ↔
      ∃ item pendingItems, m.loop = .items key group (item :: pendingItems) ∧ ToTransfer c item ∧
        sibling = m.getOneSibling group item.consumer ∧ sibling ≠ [] ∧
        milliseconds = c.mTransferMilliseconds ∧ id = item.id := by
  constructor
  · intro hClaim
    unfold step at hClaim
    split at hClaim
    case h_4 => split at hClaim <;> cases hClaim
    case h_5 => split at hClaim <;> cases hClaim
    case h_7 key' group' item pendingItems hLoop =>
      split at hClaim
      · cases hClaim
      · rename_i hDelivered
        split at hClaim
        · cases hClaim
        · rename_i hTolerant
          split at hClaim
          · rename_i hTransfer
            dsimp only at hClaim
            split at hClaim
            · rename_i hSome
              cases hClaim
              have hItem : ToTransfer c item :=
                ⟨Nat.not_lt.mp hDelivered, Nat.not_lt.mp hTolerant, hTransfer⟩
              exact ⟨item, pendingItems, hLoop, hItem, rfl, hSome, rfl, rfl⟩
            · cases hClaim
          · cases hClaim
    all_goals cases hClaim
  · rintro ⟨item, pendingItems, hLoop, ⟨hDelivered, hTolerant, hTransfer⟩, rfl, hSome, rfl, rfl⟩
    unfold step
    rw [hLoop]
    dsimp only
    rw [if_neg (Nat.not_lt.mpr hDelivered), if_neg (Nat.not_lt.mpr hTolerant), if_pos hTransfer]
    exact if_pos hSome

end

end RSBrokerManager

-- ---------------------------------------------------------------------------
-- What holds in a pass
-- ---------------------------------------------------------------------------

/-- A consumer of the group has entries that the pass goes through, now or later. -/
def RSBrokerManager.WorksOn (m : RSBrokerManager) (key group : Bytes) : Prop :=
  (∃ consumer pendingNum, (key, group, consumer, pendingNum) ∈ m.mPendingConsumerQueue) ∨
    m.loop.stream = some (key, group)

namespace Watched

/-- The loops come one after the other. -/
def Phases (s : Watched) : Prop :=
  match s.manager.loop with
  | .nap => s.manager.mPendingGroupQueue = [] ∧ s.manager.mPendingConsumerQueue = []
  | .groups _ =>
    s.manager.mPendingConsumerQueue = [] ∧ s.reported = [] ∧ s.manager.Cleared
  | .consumers => True
  | .queue | .items _ _ _ | .del _ _ _ _ | .thrown => s.manager.mPendingGroupQueue = []

/-- The entry of the group has the names that were reported in this pass, for all keys. -/
def Collected (s : Watched) (group : Bytes) : Prop :=
  ∃ siblings, s.manager.mPendingGroupsSibling group = some siblings ∧
    siblings.Pairwise (· < ·) ∧ ∀ name, name ∈ siblings ↔ ∃ key, (key, group, name) ∈ s.reported

structure Inv (s : Watched) : Prop where
  phases : s.Phases
  /-- What an earlier pass has left in the table is gone. -/
  queued : ∀ key group, (key, group) ∈ s.manager.mPendingGroupQueue → s.Collected group
  working : ∀ key group, s.manager.WorksOn key group → s.Collected group
  /-- Something was reported for the key and the group. -/
  named : ∀ key group, s.manager.WorksOn key group → ∃ name, (key, group, name) ∈ s.reported

section

variable {c : Settings} {s : Watched} {redis : Redis} {m : RSBrokerManager}

/-- Less is left to do, the table and the reports are the same. -/
theorem Inv.narrow (h : s.Inv) (hPhases : Phases ⟨m, s.reported⟩)
    (hTable : m.mPendingGroupsSibling = s.manager.mPendingGroupsSibling)
    (hGroups : m.mPendingGroupQueue = s.manager.mPendingGroupQueue)
    (hWorks : ∀ key group, m.WorksOn key group → s.manager.WorksOn key group) :
    Inv ⟨m, s.reported⟩ where
  phases := hPhases
  queued := by
    intro key group hMem
    obtain ⟨siblings, hSome, hNames⟩ := h.queued key group (hGroups ▸ hMem)
    exact ⟨siblings, hTable ▸ hSome, hNames⟩
  working := by
    intro key group hWork
    obtain ⟨siblings, hSome, hNames⟩ := h.working key group (hWorks key group hWork)
    exact ⟨siblings, hTable ▸ hSome, hNames⟩
  named := fun key group hWork => h.named key group (hWorks key group hWork)

/-- Before the first report, what has been cleared has been collected. -/
theorem collected_of_cleared {group : Bytes}
    (hCleared : s.manager.mPendingGroupsSibling group = some []) (hNone : s.reported = []) :
    s.Collected group := by
  refine ⟨[], hCleared, List.Pairwise.nil, fun name => ?_⟩
  rw [hNone]
  simp

/-- **The consumers of a group**: its entry gets the names, those of the others stay. -/
theorem Collected.push {group group' : Bytes} (key : Bytes) (infos : List ConsumerInfo)
    (h : s.Collected group) (h' : s.Collected group') :
    Collected ⟨{ s.manager.pushPendingConsumers key group infos with
        mPendingGroupQueue := s.manager.mPendingGroupQueue.tail },
      s.reported ++ infos.map fun i => (key, group, i.name)⟩ group' := by
  obtain ⟨siblings, hSome, hSorted, hNames⟩ := h
  rw [RSBrokerManager.pushPendingConsumers_eq hSome]
  by_cases hGroup : group' = group
  · subst hGroup
    obtain ⟨hSorted', hMem⟩ := setInsert_all infos hSorted
    refine ⟨_, Function.update_self .., hSorted', fun name => ?_⟩
    rw [hMem, hNames]
    simp only [List.mem_append, List.mem_map, Prod.mk.injEq]
    constructor
    · rintro (⟨key', hKey⟩ | ⟨i, hi, rfl⟩)
      · exact ⟨key', Or.inl hKey⟩
      · exact ⟨key, Or.inr ⟨i, hi, rfl, trivial, rfl⟩⟩
    · rintro ⟨key', hKey | ⟨i, hi, -, -, rfl⟩⟩
      · exact Or.inl ⟨key', hKey⟩
      · exact Or.inr ⟨i, hi, rfl⟩
  · obtain ⟨siblings', hSome', hSorted', hNames'⟩ := h'
    refine ⟨siblings', ?_, hSorted', ?_⟩
    · exact (Function.update_of_ne hGroup ..).trans hSome'
    · intro name
      rw [hNames']
      simp [Ne.symm hGroup]

/-- The front of the group queue. -/
theorem Inv.push {key group : Bytes} {groupQueue : List (Bytes × Bytes)} (h : s.Inv)
    (hLoop : s.manager.loop = .consumers)
    (hQueue : s.manager.mPendingGroupQueue = (key, group) :: groupQueue)
    (infos : List ConsumerInfo) :
    Inv ⟨{ s.manager.pushPendingConsumers key group infos with mPendingGroupQueue := groupQueue },
      s.reported ++ infos.map fun i => (key, group, i.name)⟩ := by
  have hFront : s.Collected group := h.queued key group (hQueue ▸ List.mem_cons_self)
  have hPushed := fun group' (h' : s.Collected group') => Collected.push key infos hFront h'
  obtain ⟨siblings, hSome, -⟩ := id hFront
  have hPush := RSBrokerManager.pushPendingConsumers_eq hSome key infos
  -- what is worked on was worked on before, or has been reported just now
  have hWorks : ∀ key' group', RSBrokerManager.WorksOn
      { s.manager.pushPendingConsumers key group infos with mPendingGroupQueue := groupQueue }
      key' group' → s.manager.WorksOn key' group' ∨
        key' = key ∧ group' = group ∧ ∃ i, i ∈ infos := by
    rw [hPush]
    rintro key' group' (⟨consumer, pendingNum, hMem⟩ | hStream)
    · rcases List.mem_append.mp hMem with hMem | hMem
      · exact Or.inl (Or.inl ⟨consumer, pendingNum, hMem⟩)
      · obtain ⟨i, hi, hEq⟩ := List.mem_map.mp hMem
        obtain ⟨hKey, hRest⟩ := Prod.mk.inj hEq
        exact Or.inr ⟨hKey.symm, (Prod.mk.inj hRest).1.symm, i, (List.mem_filter.mp hi).1⟩
    · exact Or.inl (Or.inr hStream)
  rw [hQueue] at hPushed
  refine
    { phases := ?_
      queued := fun key' group' hMem =>
        hPushed group' (h.queued key' group' (hQueue ▸ List.mem_cons_of_mem _ hMem))
      working := ?_
      named := ?_ }
  · unfold Phases
    rw [hPush]
    dsimp only
    rw [hLoop]
    trivial
  · intro key' group' hWork
    rcases hWorks key' group' hWork with hOld | ⟨rfl, rfl, -⟩
    · exact hPushed group' (h.working key' group' hOld)
    · exact hPushed group' hFront
  · intro key' group' hWork
    rcases hWorks key' group' hWork with hOld | ⟨rfl, rfl, i, hi⟩
    · obtain ⟨name, hName⟩ := h.named key' group' hOld
      exact ⟨name, List.mem_append_left _ hName⟩
    · exact ⟨i.name, List.mem_append_right _ (List.mem_map.mpr ⟨i, hi, rfl⟩)⟩

theorem not_worksOn {key group : Bytes} (hQueue : m.mPendingConsumerQueue = [])
    (hLoop : m.loop.stream = none) : ¬ m.WorksOn key group := by
  rintro (⟨consumer, pendingNum, hMem⟩ | hStream)
  · exact absurd (hQueue ▸ hMem) List.not_mem_nil
  · rw [hLoop] at hStream
    contradiction

/-- When the items are gone through, the groups have been. -/
theorem Phases.groupQueue_nil {key group : Bytes} (h : s.Phases)
    (hStream : s.manager.loop.stream = some (key, group)) : s.manager.mPendingGroupQueue = [] := by
  unfold Phases at h
  generalize s.manager.loop = loop at h hStream
  rcases loop with _ | _ | _ | _ | _ | _ | _
  case items => exact h
  case del => exact h
  all_goals contradiction

theorem phases_of_within {key group : Bytes} (hGroups : m.mPendingGroupQueue = [])
    (hLoop : m.loop.Within key group) (reported : List (Bytes × Bytes × Bytes)) :
    Phases ⟨m, reported⟩ := by
  unfold Phases
  dsimp only
  generalize m.loop = loop at hLoop
  rcases loop with _ | _ | _ | _ | _ | _ | _
  case items => exact hGroups
  case del => exact hGroups
  case thrown => exact hGroups
  all_goals rcases hLoop with hLoop | hLoop <;> contradiction

/-- Within the items of a stream. -/
theorem Inv.within (h : s.Inv) {key group : Bytes} {loop : Loop}
    (hStream : s.manager.loop.stream = some (key, group)) (hLoop : loop.Within key group) :
    Inv ⟨{ s.manager with loop := loop }, s.reported⟩ := by
  have hGroups : { s.manager with loop := loop }.mPendingGroupQueue = [] :=
    h.phases.groupQueue_nil hStream
  refine h.narrow (phases_of_within hGroups hLoop _) rfl rfl ?_
  rintro key' group' (hMem | hStream')
  · exact Or.inl hMem
  · rcases hLoop with rfl | hWithin
    · contradiction
    · exact Or.inr (hStream.trans (hWithin.symm.trans hStream'))

/-- **What holds in a pass** is kept by every command, whatever Redis answers. -/
theorem inv_step (c : Settings) (redis : Redis) (h : s.Inv) : (s.step c redis).Inv := by
  obtain ⟨m, reported⟩ := s
  obtain ⟨loop, keys, groupQueue, consumerQueue, table⟩ := m
  have hPhases := h.phases
  unfold Phases at hPhases
  rcases loop with _ | (_ | ⟨key, rest⟩) | _ | _ | ⟨key, group, _ | ⟨item, rest⟩⟩ |
    ⟨key, group, id, rest⟩ | _
  case nap =>
    obtain ⟨hGroups, hConsumers⟩ := hPhases
    dsimp only at hGroups hConsumers
    subst hGroups hConsumers
    exact
      { phases := ⟨rfl, rfl, nofun⟩
        queued := nofun
        working := fun _ _ hWork => absurd hWork (not_worksOn rfl rfl)
        named := fun _ _ hWork => absurd hWork (not_worksOn rfl rfl) }
  case groups.nil =>
    exact h.narrow trivial rfl rfl fun _ _ hWork => hWork
  case groups.cons =>
    obtain ⟨hConsumers, hNone, hCleared⟩ := hPhases
    dsimp only at hConsumers hNone
    subst hConsumers hNone
    have hQueue := RSBrokerManager.pushPendingGroups_consumers
      (m := ⟨.groups (key :: rest), keys, groupQueue, [], table⟩) key
      ((redis.groupsInfo key).getD [])
    have hCleared' := hCleared.pushPendingGroups key ((redis.groupsInfo key).getD [])
    exact
      { phases := ⟨hQueue, rfl, hCleared'⟩
        queued := fun key' group hMem => collected_of_cleared (hCleared' key' group hMem) rfl
        working := fun _ _ hWork => absurd hWork (not_worksOn hQueue rfl)
        named := fun _ _ hWork => absurd hWork (not_worksOn hQueue rfl) }
  case consumers =>
    rcases groupQueue with _ | ⟨⟨key, group⟩, groupQueue⟩
    · exact h.narrow rfl rfl rfl fun _ _ hWork => hWork
    · exact h.push rfl rfl ((redis.consumersInfo key group).getD [])
  case queue =>
    rcases consumerQueue with _ | ⟨⟨key, group, consumer, pendingNum⟩, consumerQueue⟩
    · exact h.narrow ⟨hPhases, rfl⟩ rfl rfl fun _ _ hWork => hWork
    · refine h.narrow hPhases rfl rfl ?_
      rintro key' group' (hMem | hStream)
      · exact Or.inl hMem
      · obtain ⟨rfl, rfl⟩ := Prod.mk.inj (Option.some.inj hStream)
        exact Or.inl ⟨consumer, pendingNum, List.mem_cons_self⟩
  case items.nil =>
    refine h.narrow hPhases rfl rfl ?_
    rintro key' group' (⟨consumer, pendingNum, hMem⟩ | hStream)
    · exact Or.inl ⟨consumer, pendingNum, List.mem_of_mem_tail hMem⟩
    · cases hStream
  case items.cons =>
    obtain ⟨loop, hStep, hLoop⟩ := RSBrokerManager.step_items c redis
      (m := ⟨.items key group (item :: rest), keys, groupQueue, consumerQueue, table⟩) rfl
    have hWithin := h.within rfl hLoop
    rw [← hStep] at hWithin
    exact hWithin
  case del =>
    refine h.within rfl ?_
    by_cases hThrown : redis.refuses = true
    · exact Or.inl (if_pos hThrown)
    · exact Or.inr (congrArg Loop.stream (if_neg hThrown))
  case thrown => exact h

theorem inv_start (keys : List Bytes) : (start keys).Inv := by
  have hNew : ∀ m : RSBrokerManager, m.loop = .nap ∧ m.mPendingGroupQueue = [] ∧
      m.mPendingConsumerQueue = [] →
      let m' := keys.foldl (fun m key => (m.registerKey key).1) m
      m'.loop = .nap ∧ m'.mPendingGroupQueue = [] ∧ m'.mPendingConsumerQueue = [] := by
    induction keys with
    | nil => exact fun m h => h
    | cons key keys ih => exact fun m h => ih _ h
  obtain ⟨hLoop, hGroups, hConsumers⟩ := hNew .new ⟨rfl, rfl, rfl⟩
  have hStream : (start keys).manager.loop.stream = none := congrArg Loop.stream hLoop
  refine
    { phases := ?_
      queued := fun key group hMem => absurd (hGroups ▸ hMem) List.not_mem_nil
      working := fun _ _ hWork => absurd hWork (not_worksOn hConsumers hStream)
      named := fun _ _ hWork => absurd hWork (not_worksOn hConsumers hStream) }
  unfold Phases
  rw [show (start keys).manager.loop = .nap from hLoop]
  exact ⟨hGroups, hConsumers⟩

/-- **The sibling** that the table has is the first of all that were reported for the name of
the group, but for the one with the entry. -/
theorem getOneSibling_eq (h : s.Inv) {key group consumer : Bytes}
    (hStream : s.manager.loop.stream = some (key, group)) {name : Bytes} (hName : name ≠ []) :
    s.manager.getOneSibling group consumer = name ↔
      First (fun name => name ≠ consumer ∧ ∃ key, (key, group, name) ∈ s.reported) name := by
  obtain ⟨siblings, hSome, hSorted, hNames⟩ := h.working key group (Or.inr hStream)
  have hFirst := find_eq_some_iff (p := fun n => decide (n ≠ consumer)) (a := name) hSorted
  simp only [decide_eq_true_eq, hNames] at hFirst
  rw [← hFirst, RSBrokerManager.getOneSibling, hSome]
  dsimp only
  cases siblings.find? (fun n => decide (n ≠ consumer)) with
  | none => simp [Ne.symm hName]
  | some sibling => simp

/-- **One command.** -/
theorem realSibling_iff (h : s.Inv) : s.RealSibling c redis ↔ s.FirstIsOwn c := by
  constructor
  · intro hReal key group item pendingItems hLoop hTransfer name hFirst
    by_cases hName : name = []
    · exact Or.inl hName
    · have hStream : s.manager.loop.stream = some (key, group) := congrArg Loop.stream hLoop
      have hSibling := (getOneSibling_eq h hStream hName).mpr hFirst
      obtain ⟨-, -, -, -, -, hOwn⟩ := hReal key group name c.mTransferMilliseconds item.id
        (RSBrokerManager.step_claim_iff.mpr
          ⟨item, pendingItems, hLoop, hTransfer, hSibling.symm, hName, rfl, rfl⟩)
      exact Or.inr hOwn
  · intro hOwn key group sibling milliseconds id hClaim
    obtain ⟨item, pendingItems, hLoop, hTransfer, hSibling, hName, -, hId⟩ :=
      RSBrokerManager.step_claim_iff.mp hClaim
    have hStream : s.manager.loop.stream = some (key, group) := congrArg Loop.stream hLoop
    have hFirst := (getOneSibling_eq h hStream hName).mp hSibling.symm
    exact ⟨item, pendingItems, hLoop, hId.symm, hFirst.1.1,
      (hOwn key group item pendingItems hLoop hTransfer sibling hFirst).resolve_left hName⟩

end

/-- No two keys have groups of the same name. -/
def Unshared (s : Watched) : Prop :=
  ∀ key key' group name name', (key, group, name) ∈ s.reported → (key', group, name') ∈ s.reported →
    key = key'

/-- **Names of groups that are not shared** keep the siblings apart. -/
theorem realSibling_of_unshared (c : Settings) (keys : List Bytes) (run : List Redis)
    (h : Each (step c) (fun s _ => s.Unshared) (start keys) run) :
    Each (step c) (RealSibling c) (start keys) run := by
  have hInv : Always (step c) Inv (start keys) run :=
    always_of_step (fun _ redis h => inv_step c redis h) (inv_start keys)
  refine h.imp_of_always hInv fun s redis hInv hUnshared => (realSibling_iff hInv).mpr ?_
  intro key group item pendingItems hLoop hTransfer name hFirst
  obtain ⟨⟨-, key', hName⟩, -⟩ := hFirst
  obtain ⟨name', hOwn⟩ := hInv.named key group (Or.inr (congrArg Loop.stream hLoop))
  obtain rfl := hUnshared _ _ _ _ _ hOwn hName
  exact Or.inr hName

/-- **When every transfer goes to a real sibling**: in every run, in which Redis changes in
any way between the commands. -/
theorem claims_real_iff (c : Settings) (keys : List Bytes) (run : List Redis) :
    Each (step c) (RealSibling c) (start keys) run ↔
      Each (step c) (fun s _ => s.FirstIsOwn c) (start keys) run :=
  each_congr_of_inv (fun _ redis h => inv_step c redis h) (fun _ _ h => realSibling_iff h)
    (inv_start keys)

end Watched

-- ---------------------------------------------------------------------------
-- Streams
-- ---------------------------------------------------------------------------

/-- The answers about these streams: keys, names of groups, groups. -/
def Redis.of {α : Type*} (streams : List (Bytes × Bytes × Group α Bytes)) (now : Nat) : Redis where
  groupsInfo key := some ((streams.filter (·.1 = key)).map fun s => ⟨s.2.1, s.2.2.pending.length⟩)
  consumersInfo key group :=
    (streams.find? fun s => s.1 = key ∧ s.2.1 = group).map fun s =>
      s.2.2.consumers.map fun consumer => ⟨consumer, s.2.2.pendingNum consumer⟩
  pending key group consumer count :=
    (streams.find? fun s => s.1 = key ∧ s.2.1 = group).map fun s =>
      s.2.2.pendingItems consumer count now
  refuses := false

namespace Watched

/-- The DB server reads two streams, in groups of the same name, with one consumer each. Both have
an entry that is not acknowledged. -/
def twoStreams : List (Bytes × Bytes × Group Unit Bytes) :=
  [(DBServConf.BROKER_DB_4_LOGIN_KEY, literal "Warring:DBServ:Group",
      ((Group.empty.add ()).read (literal "CONSUMER_1") 0).1),
    (DBServConf.BROKER_DB_4_GAME_KEY, literal "Warring:DBServ:Group",
      ((Group.empty.add ()).read (literal "CONSUMER_2") 0).1)]

/-- The entry of the one consumer is given to the other, who never reads that stream. -/
theorem claim_of_other_stream :
    ¬ ∀ (c : Settings) (keys : List Bytes) (run : List Redis),
      Each (step c) (RealSibling c) (start keys) run := by
  intro h
  have hRun := h .initial [DBServConf.BROKER_DB_4_LOGIN_KEY, DBServConf.BROKER_DB_4_GAME_KEY]
    (List.replicate 8 (Redis.of twoStreams 6000) ++ [Redis.of twoStreams 6000])
  obtain ⟨-, hReal, -⟩ := each_append.mp hRun
  obtain ⟨-, -, -, -, -, hMem⟩ := hReal DBServConf.BROKER_DB_4_GAME_KEY
    (literal "Warring:DBServ:Group") (literal "CONSUMER_1") 5000 1 (by decide)
  revert hMem
  decide

end Watched

end WarringServer.Broker
