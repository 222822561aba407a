import WarringServer.Lib.ConsumerGroup
import WarringServer.Message.BaseMessage

/-!
# RSBrokerManager — passes over pending entries

`RSBrokerManager::handlePending` looks after entries that were delivered and not
acknowledged. It asks for the groups, for the consumers of a group and for what each of
them has pending, and then goes through what it was told: an entry that was delivered too
often is acknowledged and deleted, one that has been pending for too long is acknowledged,
one that has been pending for a while is given to another consumer.

A pass is a sequence of commands to the server, and every other process may come between
two of them. The model follows the passes for one stream and one group; `siblings` is
the entry of `mPendingGroupsSibling` for the name of the group.

* `step_pending` — what a step can do to the pending list;
* `mem_items_step` — what the pass knows of an entry is what it was told.
-/

namespace WarringServer.Broker

open Message ConsumerGroup

-- ---------------------------------------------------------------------------
-- Settings
-- ---------------------------------------------------------------------------

/-- The settings, as the initial values and the setters leave them. -/
structure Settings where
  mTolerantMilliseconds : Nat
  mTransferMilliseconds : Nat
  mMaxDelivered : Nat
  tolerant_ge : 8000 ≤ mTolerantMilliseconds
  transfer_ge : 1000 ≤ mTransferMilliseconds
  maxDelivered_ge : 3 ≤ mMaxDelivered

namespace Settings

def initial : Settings where
  mTolerantMilliseconds := 10000
  mTransferMilliseconds := 5000
  mMaxDelivered := 3
  tolerant_ge := by decide
  transfer_ge := by decide
  maxDelivered_ge := by decide

def setTolerantTime (c : Settings) (milliseconds : Nat) : Settings :=
  { c with
    mTolerantMilliseconds := if milliseconds ≥ 8000 then milliseconds else 10000
    tolerant_ge := by split <;> omega }

def setTransferTime (c : Settings) (milliseconds : Nat) : Settings :=
  { c with
    mTransferMilliseconds := if milliseconds > 1000 then milliseconds else 1000
    transfer_ge := by split <;> omega }

def setMaxDelivered (c : Settings) (maxDelivered : Nat) : Settings :=
  { c with
    mMaxDelivered := if maxDelivered ≥ 3 then maxDelivered else 3
    maxDelivered_ge := by split <;> omega }

/-- No entry is touched before that much time. -/
def patience (c : Settings) : Nat := min c.mTolerantMilliseconds c.mTransferMilliseconds

end Settings

-- ---------------------------------------------------------------------------
-- Passes
-- ---------------------------------------------------------------------------

/-- Where `run` stands. -/
inductive Pass where
  | nap
  /-- `XINFO GROUPS` in `pushPendingGroups` -/
  | groups
  /-- `XINFO CONSUMERS` in `pushPendingConsumers` -/
  | consumers
  /-- `while (!mPendingConsumerQueue.empty())`, and `XPENDING` for the front -/
  | queue
  /-- The loop over `pendingItems`. -/
  | items (pendingItems : List (PendingItem Bytes))
  /-- `XDEL` of a dead letter. -/
  | del (id : Nat) (pendingItems : List (PendingItem Bytes))
  deriving DecidableEq, Repr

structure Manager where
  pass : Pass
  /-- Consumers, with the number of their pending entries. -/
  mPendingConsumerQueue : List (Bytes × Nat)
  siblings : List Bytes
  deriving DecidableEq, Repr

/-- Insertion into a `std::set<std::string>`. -/
def setInsert (c : Bytes) : List Bytes → List Bytes
  | [] => [c]
  | d :: ds => if c < d then c :: d :: ds else if c = d then d :: ds else d :: setInsert c ds

namespace Manager

def new : Manager := ⟨.nap, [], []⟩

/-- The empty string if there is none. -/
def getOneSibling (m : Manager) (consumer : Bytes) : Bytes :=
  (m.siblings.find? (· ≠ consumer)).getD []

variable {α : Type*}

/-- The next command of the pass. `forget` is what the server makes of a claim of a deleted
entry. -/
def step (c : Settings) (now : Nat) (forget : Bool) (m : Manager) (g : Group α Bytes) :
    Manager × Group α Bytes :=
  match m.pass with
  | .nap => ({ m with pass := .groups }, g)
  | .groups =>
    ({ m with siblings := [], pass := if g.pending.length > 0 then .consumers else .queue }, g)
  | .consumers =>
    let consumersInfo := g.consumers.map fun consumer => (consumer, g.pendingNum consumer)
    ({ pass := .queue
       mPendingConsumerQueue := m.mPendingConsumerQueue ++ consumersInfo.filter fun i => i.2 > 0
       siblings := g.consumers.foldl (fun siblings consumer => setInsert consumer siblings)
         m.siblings }, g)
  | .queue =>
    match m.mPendingConsumerQueue with
    | [] => ({ m with pass := .nap }, g)
    | (consumer, pendingNum) :: _ =>
      ({ m with pass := .items (g.pendingItems consumer pendingNum now) }, g)
  | .items [] =>
    ({ m with pass := .queue, mPendingConsumerQueue := m.mPendingConsumerQueue.tail }, g)
  | .items (item :: pendingItems) =>
    if item.deliveredNum > c.mMaxDelivered then
      ({ m with pass := .del item.id pendingItems }, (g.ack item.id).1)
    else if item.idle > c.mTolerantMilliseconds then
      ({ m with pass := .items pendingItems }, (g.ack item.id).1)
    else if item.idle > c.mTransferMilliseconds then
      let sibling := m.getOneSibling item.consumer
      ({ m with pass := .items pendingItems },
        if sibling ≠ [] then g.claim sibling c.mTransferMilliseconds item.id now forget else g)
    else
      ({ m with pass := .items pendingItems }, g)
  | .del id pendingItems => ({ m with pass := .items pendingItems }, g.delete id)

/-- The items the pass has been told of and has not come to yet. -/
def items (m : Manager) : List (PendingItem Bytes) :=
  match m.pass with
  | .items pendingItems | .del _ pendingItems => pendingItems
  | .nap | .groups | .consumers | .queue => []

/-- What an item must be like to be touched: delivered too often, or pending for a time. -/
def Touched (c : Settings) (item : PendingItem Bytes) : Prop :=
  item.deliveredNum > c.mMaxDelivered ∨ item.idle > c.patience

/-- **What a step does to the pending list.** Nothing, or it takes out the item that the pass
has come to, or it gives that item a new row. -/
theorem step_pending (c : Settings) (now : Nat) (forget : Bool) (m : Manager) (g : Group α Bytes) :
    let g' := (m.step c now forget g).2
    g'.lastDelivered = g.lastDelivered ∧ (g'.pending = g.pending ∨
      ∃ item ∈ m.items, Touched c item ∧ (g'.pending = (g.ack item.id).1.pending ∨
        item.idle > c.mTransferMilliseconds ∧ ∃ sibling, g'.pending = g.pending.map fun p =>
          if p.id = item.id then ⟨item.id, sibling, now, p.deliveredNum + 1⟩ else p)) := by
  intro g'
  obtain ⟨pass, queue, siblings⟩ := m
  rcases pass with _ | _ | _ | _ | (_ | ⟨item, rest⟩) | ⟨id, rest⟩
  case queue =>
    rcases queue with _ | ⟨⟨consumer, pendingNum⟩, queue⟩
    · exact ⟨rfl, Or.inl rfl⟩
    · exact ⟨rfl, Or.inl rfl⟩
  case items.cons =>
    have hMem : item ∈ items ⟨.items (item :: rest), queue, siblings⟩ := List.mem_cons_self
    simp only [g', step]
    split
    · rename_i hDead
      exact ⟨rfl, Or.inr ⟨item, hMem, Or.inl hDead, Or.inl rfl⟩⟩
    · split
      · rename_i hLong
        exact ⟨rfl, Or.inr ⟨item, hMem, Or.inr (lt_of_le_of_lt (min_le_left _ _) hLong),
          Or.inl rfl⟩⟩
      · split
        · rename_i hIdle
          have hTouched : Touched c item := Or.inr (lt_of_le_of_lt (min_le_right _ _) hIdle)
          dsimp only
          split
          · obtain ⟨hLast, hSame | hGone | hMoved⟩ := Group.claim_pending g
              (getOneSibling ⟨.items (item :: rest), queue, siblings⟩ item.consumer)
              c.mTransferMilliseconds item.id now forget
            · exact ⟨hLast, Or.inl hSame⟩
            · exact ⟨hLast, Or.inr ⟨item, hMem, hTouched, Or.inl hGone⟩⟩
            · exact ⟨hLast, Or.inr ⟨item, hMem, hTouched, Or.inr ⟨hIdle, _, hMoved⟩⟩⟩
          · exact ⟨rfl, Or.inl rfl⟩
        · exact ⟨rfl, Or.inl rfl⟩
  all_goals exact ⟨rfl, Or.inl rfl⟩

/-- A pass adds nothing to the stream. -/
theorem step_entries (c : Settings) (now : Nat) (forget : Bool) (m : Manager) (g : Group α Bytes) :
    let g' := (m.step c now forget g).2
    g'.lastId = g.lastId ∧ ∀ e ∈ g'.entries, e ∈ g.entries := by
  intro g'
  obtain ⟨pass, queue, siblings⟩ := m
  rcases pass with _ | _ | _ | _ | (_ | ⟨item, rest⟩) | ⟨id, rest⟩
  case queue =>
    rcases queue with _ | ⟨⟨consumer, pendingNum⟩, queue⟩
    · exact ⟨rfl, fun e he => he⟩
    · exact ⟨rfl, fun e he => he⟩
  case items.cons =>
    simp only [g', step]
    split
    · exact ⟨rfl, fun e he => he⟩
    · split
      · exact ⟨rfl, fun e he => he⟩
      · split
        · dsimp only
          split
          · rw [Group.claim_lastId, Group.claim_entries]
            exact ⟨rfl, fun e he => he⟩
          · exact ⟨rfl, fun e he => he⟩
        · exact ⟨rfl, fun e he => he⟩
  case del => exact ⟨rfl, fun e he => (List.mem_filter.mp he).1⟩
  all_goals exact ⟨rfl, fun e he => he⟩

/-- An item of the pass after a step was one before, or the pending list has just been read. -/
theorem mem_items_step {c : Settings} {now : Nat} {forget : Bool} {m : Manager}
    {g : Group α Bytes} {item : PendingItem Bytes} (h : item ∈ (m.step c now forget g).1.items) :
    item ∈ m.items ∨
      ∃ p ∈ g.pending, item = ⟨p.id, p.consumer, now - p.deliveredAt, p.deliveredNum⟩ := by
  obtain ⟨pass, queue, siblings⟩ := m
  rcases pass with _ | _ | _ | _ | (_ | ⟨first, rest⟩) | ⟨id, rest⟩
  case groups =>
    simp only [step] at h
    split at h
    all_goals cases h
  case queue =>
    rcases queue with _ | ⟨⟨consumer, pendingNum⟩, queue⟩
    · cases h
    · exact Or.inr (Group.mem_pendingItems h)
  case items.cons =>
    refine Or.inl (List.mem_cons_of_mem first ?_)
    simp only [step] at h
    split at h
    · exact h
    · split at h
      · exact h
      · split at h
        all_goals exact h
  case del => exact Or.inl h
  all_goals cases h

end Manager

end WarringServer.Broker
