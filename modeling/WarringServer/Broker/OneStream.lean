import WarringServer.Broker.Siblings

/-!
# Passes over one stream

With one key that has one group, what the manager does is what `Manager` does: the loops over
the keys and over the groups have one round, and the table has one entry that matters.

* `step_single` — a command is the next command of `Manager`, with the same effect on the group,
  or the end of a loop, which `Manager` does not have;
* `follows_run` — over every run, whatever others do to the stream between the commands.
-/

namespace WarringServer.Broker

open Message ConsumerGroup Run

/-- What the command makes of the group of its stream. -/
def Command.run {α : Type*} (now : Nat) (forget : Bool) (g : Group α Bytes) :
    Command → Group α Bytes
  | .ack _ _ id => (g.ack id).1
  | .del _ id => g.delete id
  | .claim _ _ consumer milliseconds id => g.claim consumer milliseconds id now forget

namespace RSBrokerManager

/-- A pass, as `Manager` has it, but for the exceptions. -/
def pass (m : RSBrokerManager) : Pass :=
  match m.loop with
  | .nap | .thrown => .nap
  | .groups (_ :: _) => .groups
  | .groups [] | .consumers => if m.mPendingGroupQueue = [] then .queue else .consumers
  | .queue => .queue
  | .items _ _ pendingItems => .items pendingItems
  | .del _ _ id pendingItems => .del id pendingItems

/-- What the manager has for the group. -/
def view (m : RSBrokerManager) (group : Bytes) : Manager where
  pass := m.pass
  mPendingConsumerQueue := m.mPendingConsumerQueue.map fun q => q.2.2
  siblings := (m.mPendingGroupsSibling group).getD []

/-- The manager has to do with one key and one group. -/
structure Single (m : RSBrokerManager) (key group : Bytes) : Prop where
  keys : m.mKeys = [key]
  queue : ∀ q ∈ m.mPendingConsumerQueue, q.1 = key ∧ q.2.1 = group
  loop : match m.loop with
    | .nap | .queue => m.mPendingGroupQueue = []
    | .groups keys => keys = [key] ∧ m.mPendingGroupQueue = [] ∨
      keys = [] ∧ (m.mPendingGroupQueue = [] ∨ m.mPendingGroupQueue = [(key, group)])
    | .consumers => m.mPendingGroupQueue = [] ∨ m.mPendingGroupQueue = [(key, group)]
    | .items key' group' _ | .del key' group' _ _ =>
      m.mPendingGroupQueue = [] ∧ key' = key ∧ group' = group
    | .thrown => False
  table : m.mPendingGroupQueue ≠ [] → m.mPendingGroupsSibling group ≠ none

section

variable {α : Type*} {m : RSBrokerManager} {key group : Bytes}

theorem getOneSibling_view (m : RSBrokerManager) (group consumer : Bytes) :
    (m.view group).getOneSibling consumer = m.getOneSibling group consumer := by
  rw [getOneSibling, Manager.getOneSibling, view]
  cases m.mPendingGroupsSibling group with
  | none => rfl
  | some siblings => rfl

theorem step_transfer {c : Settings} {now : Nat} {forget : Bool} {m : Manager} {g : Group α Bytes}
    {item : PendingItem Bytes} {pendingItems : List (PendingItem Bytes)}
    (hPass : m.pass = .items (item :: pendingItems)) (hDead : ¬ item.deliveredNum > c.mMaxDelivered)
    (hLong : ¬ item.idle > c.mTolerantMilliseconds) (hIdle : item.idle > c.mTransferMilliseconds) :
    m.step c now forget g = ({ m with pass := .items pendingItems },
      if m.getOneSibling item.consumer ≠ [] then
        g.claim (m.getOneSibling item.consumer) c.mTransferMilliseconds item.id now forget
      else g) := by
  unfold Manager.step
  rw [hPass]
  dsimp only
  rw [if_neg hDead, if_neg hLong, if_pos hIdle]

/-- The manager takes the step that its view takes, or one that is not seen there. -/
def Follows (c : Settings) (now : Nat) (forget : Bool) (m : RSBrokerManager) (key group : Bytes)
    (g : Group α Bytes) : Prop :=
  let r := m.step c (.of [(key, group, g)] now)
  r.1.Single key group ∧
    ((m.view group).step c now forget g = (r.1.view group, r.2.elim g (Command.run now forget g)) ∨
      r.1.view group = m.view group ∧ r.2 = none)

theorem step_groups (c : Settings) (now : Nat) (forget : Bool) (g : Group α Bytes)
    (h : m.Single key group) (hLoop : m.loop = .groups [key]) :
    m.Follows c now forget key group g := by
  obtain ⟨loop, keys, groupQueue, consumerQueue, table⟩ := m
  obtain ⟨hKeys, hQueue, hGroups, hTable⟩ := h
  dsimp only at hKeys hQueue hGroups hTable hLoop
  subst hKeys hLoop
  obtain rfl : groupQueue = [] := by simpa using hGroups
  -- one group is reported, and it is queued if it has something pending
  have hPushed : RSBrokerManager.step c ⟨.groups [key], [key], [], consumerQueue, table⟩
      (.of [(key, group, g)] now) =
        (⟨.groups [], [key], if g.pending.length > 0 then [(key, group)] else [],
          consumerQueue, Function.update table group (some [])⟩, none) := by
    simp [RSBrokerManager.step, Redis.of, pushPendingGroups]
  unfold Follows
  rw [hPushed]
  by_cases hPending : g.pending.length > 0
  · rw [if_pos hPending]
    refine ⟨⟨rfl, hQueue, Or.inr ⟨rfl, Or.inr rfl⟩, ?_⟩, Or.inl ?_⟩
    · simp
    · simp [Manager.step, view, pass, List.length_pos_iff.mp hPending]
  · rw [if_neg hPending]
    refine ⟨⟨rfl, hQueue, Or.inr ⟨rfl, Or.inl rfl⟩, fun hSome => absurd rfl hSome⟩, Or.inl ?_⟩
    have hNone : g.pending = [] := List.length_eq_zero_iff.mp (Nat.eq_zero_of_not_pos hPending)
    simp [Manager.step, view, pass, hNone]

theorem step_consumers (c : Settings) (now : Nat) (forget : Bool) (g : Group α Bytes)
    (h : m.Single key group) (hLoop : m.loop = .consumers)
    (hGroups : m.mPendingGroupQueue = [(key, group)]) : m.Follows c now forget key group g := by
  obtain ⟨loop, keys, groupQueue, consumerQueue, table⟩ := m
  obtain ⟨hKeys, hQueue, -, hTable⟩ := h
  dsimp only at hKeys hQueue hTable hLoop hGroups
  subst hKeys hLoop hGroups
  obtain ⟨siblings, hSome⟩ := Option.ne_none_iff_exists'.mp (hTable (List.cons_ne_nil _ _))
  let infos := g.consumers.map fun consumer =>
    ({ name := consumer, pending := g.pendingNum consumer } : ConsumerInfo)
  have hAnswer : (Redis.of [(key, group, g)] now).consumersInfo key group = some infos := by
    simp [Redis.of, infos]
  have hPush := pushPendingConsumers_eq
    (m := ⟨.consumers, [key], [(key, group)], consumerQueue, table⟩) hSome key infos
  have hStep : RSBrokerManager.step c ⟨.consumers, [key], [(key, group)], consumerQueue, table⟩
      (.of [(key, group, g)] now) =
        ({ pushPendingConsumers ⟨.consumers, [key], [(key, group)], consumerQueue, table⟩ key
            group infos with mPendingGroupQueue := [] }, none) := by
    simp only [RSBrokerManager.step]
    rw [hAnswer, Option.getD_some]
  unfold Follows
  rw [hStep, hPush]
  refine ⟨⟨rfl, ?_, Or.inl rfl, nofun⟩, Or.inl ?_⟩
  · intro q hq
    rcases List.mem_append.mp hq with hOld | hNew
    · exact hQueue q hOld
    · obtain ⟨i, -, rfl⟩ := List.mem_map.mp hNew
      exact ⟨rfl, rfl⟩
  · simp [Manager.step, view, pass, hSome, infos, List.filter_map, List.foldl_map,
      Function.comp_def]

theorem step_item (c : Settings) (now : Nat) (forget : Bool) (g : Group α Bytes)
    {item : PendingItem Bytes} {pendingItems : List (PendingItem Bytes)}
    (h : m.Single key group) (hLoop : m.loop = .items key group (item :: pendingItems)) :
    m.Follows c now forget key group g := by
  have hSibling := getOneSibling_view m group item.consumer
  obtain ⟨loop, keys, groupQueue, consumerQueue, table⟩ := m
  obtain ⟨hKeys, hQueue, hGroups, hTable⟩ := h
  dsimp only at hKeys hQueue hGroups hTable hLoop
  subst hKeys hLoop
  obtain ⟨rfl, -⟩ := hGroups
  unfold Follows
  by_cases hDead : item.deliveredNum > c.mMaxDelivered
  · simp only [RSBrokerManager.step, Manager.step, view, pass, if_pos hDead]
    exact ⟨⟨rfl, hQueue, ⟨rfl, rfl, rfl⟩, hTable⟩, Or.inl rfl⟩
  by_cases hLong : item.idle > c.mTolerantMilliseconds
  · simp only [RSBrokerManager.step, Manager.step, view, pass, if_neg hDead, if_pos hLong]
    exact ⟨⟨rfl, hQueue, ⟨rfl, rfl, rfl⟩, hTable⟩, Or.inl rfl⟩
  by_cases hIdle : item.idle > c.mTransferMilliseconds
  · simp only [RSBrokerManager.step, if_neg hDead, if_neg hLong, if_pos hIdle]
    refine ⟨⟨rfl, hQueue, ⟨rfl, rfl, rfl⟩, hTable⟩, Or.inl ?_⟩
    rw [step_transfer rfl hDead hLong hIdle, hSibling]
    split
    · rfl
    · rfl
  · simp only [RSBrokerManager.step, Manager.step, view, pass, if_neg hDead, if_neg hLong,
      if_neg hIdle]
    exact ⟨⟨rfl, hQueue, ⟨rfl, rfl, rfl⟩, hTable⟩, Or.inl rfl⟩

/-- **One command.** -/
theorem step_single (c : Settings) (now : Nat) (forget : Bool) (g : Group α Bytes)
    (h : m.Single key group) : m.Follows c now forget key group g := by
  obtain ⟨loop, keys, groupQueue, consumerQueue, table⟩ := m
  obtain ⟨hKeys, hQueue, hLoop, hTable⟩ := id h
  dsimp only at hKeys hQueue hLoop hTable
  rcases loop with _ | keys | _ | _ | ⟨key', group', _ | ⟨item, rest⟩⟩ |
    ⟨key', group', id, rest⟩ | _
  case nap =>
    subst hKeys
    exact ⟨⟨rfl, hQueue, Or.inl ⟨rfl, hLoop⟩, hTable⟩, Or.inl rfl⟩
  case groups =>
    rcases hLoop with ⟨rfl, -⟩ | ⟨rfl, hGroups⟩
    · exact step_groups c now forget g h rfl
    · exact ⟨⟨hKeys, hQueue, hGroups, hTable⟩, Or.inr ⟨rfl, rfl⟩⟩
  case consumers =>
    rcases hLoop with hGroups | hGroups
    · subst hGroups
      exact ⟨⟨hKeys, hQueue, rfl, hTable⟩, Or.inr ⟨rfl, rfl⟩⟩
    · exact step_consumers c now forget g h rfl hGroups
  case queue =>
    subst hLoop
    rcases consumerQueue with _ | ⟨⟨key', group', consumer, pendingNum⟩, consumerQueue⟩
    · exact ⟨⟨hKeys, hQueue, rfl, hTable⟩, Or.inl rfl⟩
    · obtain ⟨hKey, hGroup⟩ := hQueue _ List.mem_cons_self
      dsimp only at hKey hGroup
      subst hKey hGroup
      refine ⟨⟨hKeys, hQueue, ⟨rfl, rfl, rfl⟩, hTable⟩, Or.inl ?_⟩
      simp [Manager.step, RSBrokerManager.step, view, pass, Redis.of]
  case items.nil =>
    refine ⟨⟨hKeys, fun q hq => hQueue q (List.mem_of_mem_tail hq), hLoop.1, hTable⟩, Or.inl ?_⟩
    simp [Manager.step, RSBrokerManager.step, view, pass]
  case items.cons =>
    obtain ⟨-, rfl, rfl⟩ := hLoop
    exact step_item c now forget g h rfl
  case del => exact ⟨⟨hKeys, hQueue, hLoop, hTable⟩, Or.inl rfl⟩
  case thrown => exact hLoop.elim

/-- **A run for one stream**: between the commands others may change it, and time goes by. -/
theorem follows_run (c : Settings) (key group : Bytes)
    (run : List (Nat × Bool × Group α Bytes)) :
    Each (fun m e => (m.step c (.of [(key, group, e.2.2)] e.1)).1)
      (fun m e => m.Follows c e.1 e.2.1 key group e.2.2) (Watched.start [key]).manager run := by
  have hStart : (Watched.start [key]).manager.Single key group := ⟨rfl, nofun, rfl, nofun⟩
  generalize (Watched.start [key]).manager = m at hStart
  induction run generalizing m with
  | nil => trivial
  | cons e run ih =>
    have hFollows := step_single c e.1 e.2.1 e.2.2 hStart
    exact ⟨hFollows, ih _ hFollows.1⟩

end

end RSBrokerManager

end WarringServer.Broker
