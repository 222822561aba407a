import Mathlib.Data.List.Basic
import Mathlib.Tactic.Common

/-!
# A stream with a consumer group

A stream is an append-only list of entries with ascending ids, from which entries may be
deleted. A group remembers how far it has been read and which of the entries it has handed
out are still pending: delivered to a consumer, and not acknowledged. Each command is one
step.

* `read` — hands out the next entry. An entry is handed out once (`read_spec`);
* `ack` — takes an entry out of the pending list, and says whether it was there;
* `claim` — gives a pending entry to another consumer. What becomes of an entry that has
  been deleted from the stream is a matter of the version: `forget` says that it is
  taken out of the pending list;
* `pendingItems` — the entries a consumer has pending, with the time since their delivery;
* `Unbroken` — no entry is missing that has not been handed out: then the next one is next.

`α` is what an entry holds, `κ` names the consumers, time is a number.
-/

namespace ConsumerGroup

variable {α κ : Type*}

/-- A row of the pending list. -/
structure Pending (κ : Type*) where
  id : Nat
  consumer : κ
  deliveredAt : Nat
  deliveredNum : Nat
  deriving DecidableEq, Repr

/-- A row as it is reported. -/
structure PendingItem (κ : Type*) where
  id : Nat
  consumer : κ
  idle : Nat
  deliveredNum : Nat
  deriving DecidableEq, Repr

structure Group (α κ : Type*) where
  entries : List (Nat × α)
  lastId : Nat
  /-- The id of the last entry that was handed out. -/
  lastDelivered : Nat
  pending : List (Pending κ)
  consumers : List κ
  deriving DecidableEq, Repr

namespace Group

def empty : Group α κ := ⟨[], 0, 0, [], []⟩

def add (g : Group α κ) (a : α) : Group α κ :=
  { g with entries := g.entries ++ [(g.lastId + 1, a)], lastId := g.lastId + 1 }

/-- The oldest entries are deleted. -/
def trim (g : Group α κ) (n : Nat) : Group α κ := { g with entries := g.entries.drop n }

def delete (g : Group α κ) (id : Nat) : Group α κ :=
  { g with entries := g.entries.filter (·.1 ≠ id) }

/-- The ids of the pending entries. -/
def ids (g : Group α κ) : List Nat := g.pending.map Pending.id

def ack (g : Group α κ) (id : Nat) : Group α κ × Bool :=
  ({ g with pending := g.pending.filter (·.id ≠ id) }, id ∈ g.ids)

section

variable {g : Group α κ}

/-- **An acknowledgement** concerns its entry alone. -/
theorem mem_ids_ack {id id' : Nat} : id' ∈ (g.ack id).1.ids ↔ id' ∈ g.ids ∧ id' ≠ id := by
  simp only [ids, ack, List.mem_map, List.mem_filter, decide_eq_true_eq]
  constructor
  · rintro ⟨p, ⟨hp, hNe⟩, rfl⟩
    exact ⟨⟨p, hp, rfl⟩, hNe⟩
  · rintro ⟨⟨p, hp, rfl⟩, hNe⟩
    exact ⟨p, ⟨hp, hNe⟩, rfl⟩

-- ---------------------------------------------------------------------------
-- What has not been handed out
-- ---------------------------------------------------------------------------

/-- How many of the ids have not been handed out. -/
def unread (g : Group α κ) : Nat := g.lastId - g.lastDelivered

/-- No entry that has not been handed out is missing. -/
structure Unbroken (g : Group α κ) : Prop where
  le : g.lastDelivered ≤ g.lastId
  split : ∃ old : List Nat, (∀ id ∈ old, id ≤ g.lastDelivered) ∧
    g.entries.map Prod.fst = old ++ List.range' (g.lastDelivered + 1) g.unread

theorem unbroken_empty : (empty : Group α κ).Unbroken :=
  ⟨Nat.le_refl 0, [], fun _ h => absurd h List.not_mem_nil, rfl⟩

/-- Commands that concern the pending list. -/
theorem Unbroken.congr {g' : Group α κ} (h : g.Unbroken) (hLastId : g'.lastId = g.lastId)
    (hLast : g'.lastDelivered = g.lastDelivered) (hEntries : g'.entries = g.entries) :
    g'.Unbroken := by
  obtain ⟨hLe, old, hOld, hSplit⟩ := h
  refine ⟨by rw [hLast, hLastId]; exact hLe, old, by rw [hLast]; exact hOld, ?_⟩
  rw [hEntries, hSplit, unread, unread, hLast, hLastId]

theorem Unbroken.add (h : g.Unbroken) (a : α) : (g.add a).Unbroken := by
  obtain ⟨hLe, old, hOld, hSplit⟩ := h
  refine ⟨Nat.le_trans hLe (Nat.le_succ _), old, hOld, ?_⟩
  have hUnread : (g.add a).unread = g.unread + 1 := by
    change g.lastId + 1 - g.lastDelivered = g.lastId - g.lastDelivered + 1
    omega
  have hLast : g.lastId + 1 = g.lastDelivered + 1 + 1 * g.unread := by
    change g.lastId + 1 = g.lastDelivered + 1 + 1 * (g.lastId - g.lastDelivered)
    omega
  change (g.entries ++ [(g.lastId + 1, a)]).map Prod.fst = _
  rw [List.map_append, hSplit, hUnread, List.range'_concat, List.append_assoc]
  change _ = old ++ (_ ++ [g.lastDelivered + 1 + 1 * g.unread])
  rw [← hLast]
  rfl

theorem Unbroken.unread_le (h : g.Unbroken) : g.unread ≤ g.entries.length := by
  obtain ⟨-, old, -, hSplit⟩ := h
  have hLength := congrArg List.length hSplit
  rw [List.length_map, List.length_append, List.length_range'] at hLength
  omega

/-- What may be cut off without a loss. -/
theorem Unbroken.trim (h : g.Unbroken) {n : Nat} (hn : n + g.unread ≤ g.entries.length) :
    (g.trim n).Unbroken := by
  obtain ⟨hLe, old, hOld, hSplit⟩ := h
  have hLength := congrArg List.length hSplit
  rw [List.length_map, List.length_append, List.length_range'] at hLength
  refine ⟨hLe, old.drop n, fun id hid => hOld id (List.mem_of_mem_drop hid), ?_⟩
  change (g.entries.drop n).map Prod.fst = _
  rw [List.map_drop, hSplit, List.drop_append_of_le_length (by omega)]
  rfl

/-- An entry that has been handed out is deleted. -/
theorem Unbroken.delete (h : g.Unbroken) {id : Nat} (hid : id ≤ g.lastDelivered) :
    (g.delete id).Unbroken := by
  obtain ⟨hLe, old, hOld, hSplit⟩ := h
  refine ⟨hLe, old.filter (· ≠ id), fun x hx => hOld x (List.mem_filter.mp hx).1, ?_⟩
  have hRest : (List.range' (g.lastDelivered + 1) g.unread).filter (· ≠ id) =
      List.range' (g.lastDelivered + 1) g.unread := by
    refine List.filter_eq_self.mpr fun x hx => decide_eq_true ?_
    obtain ⟨hLo, -⟩ := List.mem_range'_1.mp hx
    omega
  change (g.entries.filter fun e => e.1 ≠ id).map Prod.fst = _
  have hMap : (g.entries.filter fun e => e.1 ≠ id).map Prod.fst =
      (g.entries.map Prod.fst).filter (· ≠ id) := by
    rw [List.filter_map]
    rfl
  rw [hMap, hSplit, List.filter_append, hRest]
  rfl

/-- Whatever has not been handed out is there. -/
theorem Unbroken.mem (h : g.Unbroken) {id : Nat} (hLo : g.lastDelivered < id)
    (hHi : id ≤ g.lastId) : ∃ a, (id, a) ∈ g.entries := by
  obtain ⟨hLe, old, -, hSplit⟩ := h
  have hMem : id ∈ g.entries.map Prod.fst := by
    rw [hSplit]
    refine List.mem_append_right _ (List.mem_range'_1.mpr ⟨hLo, ?_⟩)
    change id < g.lastDelivered + 1 + (g.lastId - g.lastDelivered)
    omega
  obtain ⟨⟨id', a⟩, he, rfl⟩ := List.mem_map.mp hMem
  exact ⟨a, he⟩

end

-- ---------------------------------------------------------------------------
-- Consumers
-- ---------------------------------------------------------------------------

variable [DecidableEq κ]

/-- A consumer exists from its first command on. -/
def join (g : Group α κ) (consumer : κ) : Group α κ :=
  if consumer ∈ g.consumers then g else { g with consumers := g.consumers ++ [consumer] }

def read (g : Group α κ) (consumer : κ) (now : Nat) : Group α κ × Option (Nat × α) :=
  match g.entries.find? (g.lastDelivered < ·.1) with
  | none => (g.join consumer, none)
  | some (id, a) =>
    ({ g.join consumer with
        lastDelivered := id
        pending := g.pending ++ [⟨id, consumer, now, 1⟩] }, some (id, a))

def claim (g : Group α κ) (consumer : κ) (minIdle id now : Nat) (forget : Bool) : Group α κ :=
  match g.pending.find? (·.id = id) with
  | none => g
  | some p =>
    if (g.entries.all fun e => e.1 ≠ id) ∧ forget = true then
      (g.ack id).1
    else if now - p.deliveredAt < minIdle then
      g
    else
      { g.join consumer with
        pending := g.pending.map fun p =>
          if p.id = id then ⟨id, consumer, now, p.deliveredNum + 1⟩ else p }

/-- How many entries the consumer has pending. -/
def pendingNum (g : Group α κ) (consumer : κ) : Nat :=
  (g.pending.filter (·.consumer = consumer)).length

def pendingItems (g : Group α κ) (consumer : κ) (count now : Nat) : List (PendingItem κ) :=
  ((g.pending.filter (·.consumer = consumer)).take count).map fun p =>
    ⟨p.id, p.consumer, now - p.deliveredAt, p.deliveredNum⟩

-- ---------------------------------------------------------------------------
-- What becomes of the pending list
-- ---------------------------------------------------------------------------

variable {g : Group α κ} {consumer : κ} {now : Nat}

@[simp] theorem join_pending : (g.join consumer).pending = g.pending := by
  unfold join
  split
  · rfl
  · rfl

@[simp] theorem join_lastDelivered : (g.join consumer).lastDelivered = g.lastDelivered := by
  unfold join
  split
  · rfl
  · rfl

/-- **A delivery.** The entry has not been handed out before, and is pending from now on. -/
theorem read_spec {e : Nat × α} (h : (g.read consumer now).2 = some e) :
    g.lastDelivered < e.1 ∧ (g.read consumer now).1.lastDelivered = e.1 ∧
      (g.read consumer now).1.pending = g.pending ++ [⟨e.1, consumer, now, 1⟩] := by
  unfold read at h ⊢
  rcases hFound : g.entries.find? (g.lastDelivered < ·.1) with _ | ⟨id, a⟩
  · rw [hFound] at h
    cases h
  · rw [hFound] at h ⊢
    obtain rfl := Option.some.inj h
    have hNew := List.find?_some hFound
    exact ⟨of_decide_eq_true hNew, rfl, rfl⟩

theorem read_result :
    (g.read consumer now).2 = g.entries.find? fun e => g.lastDelivered < e.1 := by
  unfold read
  split
  · exact Eq.symm ‹_›
  · exact Eq.symm ‹_›

/-- What is handed out is in the stream. -/
theorem read_mem {e : Nat × α} (h : (g.read consumer now).2 = some e) : e ∈ g.entries := by
  rw [read_result] at h
  exact List.mem_of_find?_eq_some h

/-- Handing out takes nothing out of the stream. -/
@[simp] theorem read_entries : (g.read consumer now).1.entries = g.entries := by
  unfold read join
  split
  all_goals
    dsimp only
    split
    · rfl
    · rfl

@[simp] theorem read_lastId : (g.read consumer now).1.lastId = g.lastId := by
  unfold read join
  split
  all_goals
    dsimp only
    split
    · rfl
    · rfl

/-- Nothing to read. -/
theorem read_none (h : (g.read consumer now).2 = none) :
    (g.read consumer now).1.lastDelivered = g.lastDelivered ∧
      (g.read consumer now).1.pending = g.pending := by
  unfold read at h ⊢
  rcases hFound : g.entries.find? (g.lastDelivered < ·.1) with _ | ⟨id, a⟩
  · rw [hFound]
    exact ⟨join_lastDelivered, join_pending⟩
  · rw [hFound] at h
    cases h

/-- **A claim** gives the entry a new row, or forgets it, or changes nothing. -/
theorem claim_pending (g : Group α κ) (consumer : κ) (minIdle id now : Nat) (forget : Bool) :
    (g.claim consumer minIdle id now forget).lastDelivered = g.lastDelivered ∧
      ((g.claim consumer minIdle id now forget).pending = g.pending ∨
        (g.claim consumer minIdle id now forget).pending = (g.ack id).1.pending ∨
        (g.claim consumer minIdle id now forget).pending = g.pending.map fun p =>
          if p.id = id then ⟨id, consumer, now, p.deliveredNum + 1⟩ else p) := by
  unfold claim
  split
  · exact ⟨rfl, Or.inl rfl⟩
  · split
    · exact ⟨rfl, Or.inr (Or.inl rfl)⟩
    · split
      · exact ⟨rfl, Or.inl rfl⟩
      · exact ⟨join_lastDelivered, Or.inr (Or.inr rfl)⟩

/-- A claim concerns the pending list alone. -/
@[simp] theorem claim_entries {minIdle id : Nat} {forget : Bool} :
    (g.claim consumer minIdle id now forget).entries = g.entries := by
  unfold claim join
  split
  · rfl
  · split
    · rfl
    · split
      · rfl
      · split
        · rfl
        · rfl

@[simp] theorem claim_lastId {minIdle id : Nat} {forget : Bool} :
    (g.claim consumer minIdle id now forget).lastId = g.lastId := by
  unfold claim join
  split
  · rfl
  · split
    · rfl
    · split
      · rfl
      · split
        · rfl
        · rfl

theorem mem_pendingItems {count : Nat} {item : PendingItem κ}
    (h : item ∈ g.pendingItems consumer count now) :
    ∃ p ∈ g.pending, item = ⟨p.id, p.consumer, now - p.deliveredAt, p.deliveredNum⟩ := by
  obtain ⟨p, hp, rfl⟩ := List.mem_map.mp h
  exact ⟨p, (List.mem_filter.mp (List.mem_of_mem_take hp)).1, rfl⟩

/-- **A delivery** hands out the entry that comes next. -/
theorem Unbroken.read (h : g.Unbroken) (consumer : κ) (now : Nat) :
    (g.read consumer now).1.Unbroken ∧
      ∀ e, (g.read consumer now).2 = some e → e.1 = g.lastDelivered + 1 := by
  obtain ⟨hLe, old, hOld, hSplit⟩ := h
  have hFind : (g.entries.find? fun e => decide (g.lastDelivered < e.1)).map Prod.fst =
      (g.entries.map Prod.fst).find? fun id => decide (g.lastDelivered < id) := by
    rw [List.find?_map]
    rfl
  have hNone : old.find? (fun id => decide (g.lastDelivered < id)) = none :=
    List.find?_eq_none.mpr fun id hid => by
      rw [decide_eq_true_eq]
      exact Nat.not_lt.mpr (hOld id hid)
  rw [hSplit, List.find?_append, hNone, Option.none_or] at hFind
  rcases hRead : (g.read consumer now).2 with _ | ⟨id, a⟩
  · obtain ⟨hLast, -⟩ := read_none hRead
    refine ⟨Unbroken.congr ⟨hLe, old, hOld, hSplit⟩ read_lastId hLast read_entries, ?_⟩
    intro e he
    cases he
  · obtain ⟨-, hLast, -⟩ := read_spec hRead
    rw [read_result] at hRead
    rw [hRead] at hFind
    -- the head of the range
    rcases hUnread : g.unread with _ | unread
    · rw [hUnread] at hFind
      cases hFind
    · rw [hUnread, List.range'_succ, List.find?_cons_of_pos (by simp)] at hFind
      obtain rfl : id = g.lastDelivered + 1 := Option.some.inj hFind
      refine ⟨⟨?_, old ++ [g.lastDelivered + 1], ?_, ?_⟩, ?_⟩
      · rw [hLast, read_lastId]
        change g.lastId - g.lastDelivered = unread + 1 at hUnread
        dsimp only
        omega
      · intro x hx
        rw [hLast]
        rcases List.mem_append.mp hx with hx | hx
        · exact Nat.le_trans (hOld x hx) (Nat.le_succ _)
        · exact Nat.le_of_eq (List.mem_singleton.mp hx)
      · have hRest : (g.read consumer now).1.unread = unread := by
          change (g.read consumer now).1.lastId - (g.read consumer now).1.lastDelivered = unread
          rw [hLast, read_lastId]
          change g.lastId - g.lastDelivered = unread + 1 at hUnread
          dsimp only
          omega
        rw [read_entries, hSplit, hRest, hLast, hUnread, List.range'_succ, List.append_assoc]
        rfl
      · intro e he
        exact (Prod.mk.inj (Option.some.inj he)).1.symm

end Group

end ConsumerGroup
