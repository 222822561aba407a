import Mathlib.Data.List.Induction
import WarringServer.CenterServer.ServiceRegistry

/-!
# When a server is given up

The miss counter of `mServiceKeys` is a count of the misses in a row: the rounds in which
the key was a member, was not there, and was not given up (`Missed`), back to the first that
is not of this kind. Rounds of which the key is no member do not count in either direction.

* `misses_succ_iff` — the counter against the rounds behind;
* `loss_detected_iff` — a key is given up in a round, with all four traces of it removed,
  exactly if this is its third miss in a row.
-/

namespace WarringServer.CenterServer

open Run

-- ---------------------------------------------------------------------------
-- The commands of a round
-- ---------------------------------------------------------------------------

/-- What is sent to Redis for the members of a round, and behind them. -/
def roundCommands (mServiceKeys : MissCounts) : List (ServiceKey × Bool) → List RegistryCommand
  | [] => [.publish KEY_HEARTBEAT_MESSAGE]
  | member :: members =>
    (observe mServiceKeys member.1 member.2).2 ++
      roundCommands (observe mServiceKeys member.1 member.2).1 members

/-- The commands that give a key up. -/
def givingUp (key : ServiceKey) : List RegistryCommand :=
  [.srem key, .zrem .GATEWAY_KEYS key, .zrem .GAME_KEYS key, .publish (minus key)]

namespace ServiceRegistry

/-- The commands of a round. -/
def commands (s : ServiceRegistry) (r : Round) : List RegistryCommand :=
  roundCommands s.mServiceKeys r.members

section

variable {s : ServiceRegistry} {r : Round} {key : ServiceKey} {cmd : RegistryCommand}

theorem published_foldl_check (members : List (ServiceKey × Bool)) :
    (members.foldl check s).published ++ [KEY_HEARTBEAT_MESSAGE] =
      s.published ++ (roundCommands s.mServiceKeys members).filterMap
        RegistryCommand.message? := by
  induction members generalizing s with
  | nil => rfl
  | cons member members ih =>
    rw [List.foldl_cons, ih, roundCommands, List.filterMap_append, ← List.append_assoc]
    rfl

/-- The messages of a round are those of its commands. -/
theorem published_round :
    (s.round r).published = s.published ++ (s.commands r).filterMap RegistryCommand.message? :=
  published_foldl_check r.members

/-- A command that gives a key up names it. -/
theorem mem_givingUp_ne {key' : ServiceKey} (h : cmd ∈ givingUp key) (h' : cmd ∈ givingUp key') :
    key' = key := by
  simp only [givingUp, List.mem_cons, List.not_mem_nil, or_false] at h h'
  rcases h with rfl | rfl | rfl | rfl <;> simpa [minus, eq_comm] using h'

/-- No announcement and no request for a heartbeat gives a key up. -/
theorem not_mem_givingUp {msg : Bytes} (h : msg.head? ≠ some 45) :
    RegistryCommand.publish msg ∉ givingUp key := by
  intro hMem
  simp only [givingUp, List.mem_cons, List.not_mem_nil, or_false, reduceCtorEq, false_or,
    RegistryCommand.publish.injEq] at hMem
  rw [hMem] at h
  exact h rfl

theorem mem_observe_iff {m : MissCounts} {key' : ServiceKey} {existed : Bool}
    (h : cmd ∈ givingUp key) :
    cmd ∈ (observe m key' existed).2 ↔
      key' = key ∧ existed = false ∧ 3 ≤ (m key).getD 0 + 1 := by
  cases existed with
  | true =>
    refine ⟨fun hMem => ?_, fun hSome => absurd hSome.2.1 (by decide)⟩
    have hPlus : cmd = .publish (plus key') := by
      unfold observe at hMem
      dsimp only at hMem
      split at hMem
      · split at hMem
        · exact List.mem_singleton.mp hMem
        · cases hMem
      · exact absurd rfl ‹_›
    rw [hPlus] at h
    exact absurd h (not_mem_givingUp (by simp [plus]))
  | false =>
    by_cases hThird : 3 ≤ (m key').getD 0 + 1
    · have hCommands : (observe m key' false).2 = givingUp key' := by
        simp only [observe, Bool.false_eq_true, if_false, ge_iff_le, if_pos hThird]
        rfl
      rw [hCommands]
      constructor
      · intro hMem
        have hKey := mem_givingUp_ne h hMem
        exact ⟨hKey, rfl, hKey ▸ hThird⟩
      · rintro ⟨rfl, -, -⟩
        exact h
    · have hCommands : (observe m key' false).2 = [] := by
        simp only [observe, Bool.false_eq_true, if_false, ge_iff_le, if_neg hThird]
      rw [hCommands]
      refine ⟨fun hMem => absurd hMem List.not_mem_nil, ?_⟩
      rintro ⟨rfl, -, hMany⟩
      exact absurd hMany hThird

theorem observe_misses_ne {m : MissCounts} {key' : ServiceKey} (existed : Bool) (h : key' ≠ key) :
    (observe m key' existed).1 key = m key := by
  unfold observe
  dsimp only
  split
  · exact Function.update_of_ne (Ne.symm h) ..
  · split <;> exact Function.update_of_ne (Ne.symm h) ..

/-- The commands that give a key up come in the round of its third miss. -/
theorem mem_roundCommands_iff {m : MissCounts} {members : List (ServiceKey × Bool)}
    (hNodup : (members.map Prod.fst).Nodup) (h : cmd ∈ givingUp key) :
    cmd ∈ roundCommands m members ↔ (key, false) ∈ members ∧ 3 ≤ (m key).getD 0 + 1 := by
  induction members generalizing m with
  | nil =>
    refine ⟨fun hMem => ?_, nofun⟩
    rw [List.mem_singleton.mp hMem] at h
    exact absurd h (not_mem_givingUp (by decide))
  | cons member members ih =>
    obtain ⟨key', existed⟩ := member
    rw [List.map_cons, List.nodup_cons] at hNodup
    rw [roundCommands, List.mem_append, ih hNodup.2, mem_observe_iff h, List.mem_cons,
      Prod.mk.injEq]
    by_cases hKey : key' = key
    · subst hKey
      -- the other members are other keys
      have hOnce : (key', false) ∉ members := fun hMem =>
        hNodup.1 (List.mem_map.mpr ⟨(key', false), hMem, rfl⟩)
      simp [hOnce, eq_comm]
    · rw [observe_misses_ne existed hKey]
      simp [hKey, Ne.symm hKey]

theorem mem_commands_iff (h : cmd ∈ givingUp key) :
    cmd ∈ s.commands r ↔ (key, false) ∈ r.members ∧ 3 ≤ (s.mServiceKeys key).getD 0 + 1 :=
  mem_roundCommands_iff r.nodup h

end

-- ---------------------------------------------------------------------------
-- The rounds behind
-- ---------------------------------------------------------------------------

/-- The commands of the round behind others. -/
def commandsAfter (rounds : List Round) (r : Round) : List RegistryCommand :=
  (final round init rounds).commands r

/-- `"-key"` is published in the round. -/
def Lost (key : ServiceKey) (rounds : List Round) (r : Round) : Prop :=
  .publish (minus key) ∈ commandsAfter rounds r

/-- The last round that had the key as a member has found it missing, without `"-key"`. It
came behind the rounds `before`. -/
def Missed (key : ServiceKey) (rounds before : List Round) : Prop :=
  ∃ r gap, rounds = before ++ r :: gap ∧ (key, false) ∈ r.members ∧ ¬ Lost key before r ∧
    ∀ r' ∈ gap, key ∉ r'.members.map Prod.fst

/-- The counter of a key; a key that is not in the map counts 0. -/
def misses (key : ServiceKey) (rounds : List Round) : Nat :=
  ((final round init rounds).mServiceKeys key).getD 0

section

variable {key : ServiceKey} {rounds before : List Round} {r : Round}

theorem lost_iff : Lost key rounds r ↔ (key, false) ∈ r.members ∧ 3 ≤ misses key rounds + 1 :=
  mem_commands_iff (by simp [givingUp])

theorem not_missed_nil : ¬ Missed key [] before := by
  rintro ⟨r, gap, hRounds, -⟩
  simp at hRounds

/-- The last round counts, or the key was no member of it. -/
theorem missed_snoc :
    Missed key (rounds ++ [r]) before ↔
      (before = rounds ∧ (key, false) ∈ r.members ∧ ¬ Lost key rounds r) ∨
        (key ∉ r.members.map Prod.fst ∧ Missed key rounds before) := by
  constructor
  · rintro ⟨r₁, gap, hRounds, hMember, hKept, hGap⟩
    rcases List.eq_nil_or_concat gap with rfl | ⟨gap', r', rfl⟩
    · obtain ⟨rfl, hLast⟩ := List.append_inj' hRounds rfl
      obtain rfl := List.singleton_inj.mp hLast
      exact Or.inl ⟨rfl, hMember, hKept⟩
    · rw [List.concat_eq_append, ← List.cons_append, ← List.append_assoc] at hRounds
      obtain ⟨hInit, hLast⟩ := List.append_inj' hRounds rfl
      obtain rfl := List.singleton_inj.mp hLast
      refine Or.inr ⟨hGap r (by simp), r₁, gap', hInit, hMember, hKept, fun r' hr' => ?_⟩
      exact hGap r' (by simp [hr'])
  · rintro (⟨rfl, hMember, hKept⟩ | ⟨hAbsent, r₁, gap, rfl, hMember, hKept, hGap⟩)
    · exact ⟨r, [], rfl, hMember, hKept, nofun⟩
    · refine ⟨r₁, gap ++ [r], by simp, hMember, hKept, fun r' hr' => ?_⟩
      rcases List.mem_append.mp hr' with hr' | hr'
      · exact hGap r' hr'
      · rw [List.mem_singleton.mp hr']
        exact hAbsent

theorem final_snoc : final round init (rounds ++ [r]) = (final round init rounds).round r :=
  final_append

theorem misses_absent (h : key ∉ r.members.map Prod.fst) :
    misses key (rounds ++ [r]) = misses key rounds := by
  have hView := congrArg KeyView.misses (view_round_ne (s := final round init rounds) h)
  unfold misses
  rw [final_snoc]
  exact congrArg (·.getD 0) hView

theorem misses_member {existed : Bool} (h : (key, existed) ∈ r.members) :
    misses key (rounds ++ [r]) =
      (((final round init rounds).view key).observe existed).misses.getD 0 := by
  have hView := congrArg KeyView.misses (view_round_mem (s := final round init rounds) h)
  unfold misses
  rw [final_snoc]
  exact congrArg (·.getD 0) hView

theorem misses_hit (h : (key, true) ∈ r.members) : misses key (rounds ++ [r]) = 0 := by
  rw [misses_member h]
  rfl

theorem misses_lost (h : Lost key rounds r) : misses key (rounds ++ [r]) = 0 := by
  obtain ⟨hMember, hMany⟩ := lost_iff.mp h
  have hThird : ((final round init rounds).view key).misses.getD 0 + 1 ≥ 3 := hMany
  rw [misses_member hMember, KeyView.observe_lost hThird]
  rfl

theorem misses_kept (h : (key, false) ∈ r.members) (hKept : ¬ Lost key rounds r) :
    misses key (rounds ++ [r]) = misses key rounds + 1 := by
  have hFew : ((final round init rounds).view key).misses.getD 0 + 1 < 3 :=
    Nat.not_le.mp fun hThird => hKept (lost_iff.mpr ⟨h, hThird⟩)
  rw [misses_member h, KeyView.observe_miss hFew]
  rfl

theorem mem_members_iff : key ∈ r.members.map Prod.fst ↔ ∃ existed, (key, existed) ∈ r.members := by
  simp [List.mem_map]

/-- **The counter** is one more than it was before the last round that counts, and 0 if there
is no such round. -/
theorem misses_succ_iff {n : Nat} :
    misses key rounds = n + 1 ↔ ∃ before, Missed key rounds before ∧ misses key before = n := by
  induction rounds using List.reverseRecOn with
  | nil =>
    refine ⟨nofun, ?_⟩
    rintro ⟨before, hMissed, -⟩
    exact absurd hMissed not_missed_nil
  | append_singleton rounds r ih =>
    simp only [missed_snoc]
    by_cases hIn : key ∈ r.members.map Prod.fst
    · obtain ⟨existed, hMember⟩ := mem_members_iff.mp hIn
      by_cases hCounts : (key, false) ∈ r.members ∧ ¬ Lost key rounds r
      · -- the round counts, and no other before it is the last one
        rw [misses_kept hCounts.1 hCounts.2, Nat.succ_inj]
        constructor
        · exact fun hn => ⟨rounds, Or.inl ⟨rfl, hCounts⟩, hn⟩
        · rintro ⟨before, ⟨rfl, -⟩ | ⟨hAbsent, -⟩, hn⟩
          · exact hn
          · exact absurd hIn hAbsent
      · -- the round is the last of the key, and does not count
        have hZero : misses key (rounds ++ [r]) = 0 := by
          by_cases hMissing : (key, false) ∈ r.members
          · exact misses_lost (not_not.mp fun hKept => hCounts ⟨hMissing, hKept⟩)
          · cases existed with
            | false => exact absurd hMember hMissing
            | true => exact misses_hit hMember
        rw [hZero]
        refine ⟨nofun, ?_⟩
        rintro ⟨before, ⟨-, hOther⟩ | ⟨hAbsent, -⟩, -⟩
        · exact absurd hOther hCounts
        · exact absurd hIn hAbsent
    · -- the round says nothing about the key
      rw [misses_absent hIn, ih]
      have hNot (existed : Bool) : (key, existed) ∉ r.members := fun h =>
        hIn (List.mem_map_of_mem (f := Prod.fst) h)
      simp [hNot, hIn]

theorem misses_pos_iff : 0 < misses key rounds ↔ ∃ before, Missed key rounds before := by
  constructor
  · intro hPos
    obtain ⟨n, hn⟩ := Nat.exists_eq_succ_of_ne_zero (Nat.ne_of_gt hPos)
    obtain ⟨before, hMissed, -⟩ := misses_succ_iff.mp hn
    exact ⟨before, hMissed⟩
  · rintro ⟨before, hMissed⟩
    rw [misses_succ_iff.mpr ⟨before, hMissed, rfl⟩]
    exact Nat.succ_pos _

/-- A key is given up at its third miss in a row. -/
theorem lost_iff_missed :
    Lost key rounds r ↔ (key, false) ∈ r.members ∧
      ∃ before, Missed key rounds before ∧ ∃ before', Missed key before before' := by
  rw [lost_iff]
  refine and_congr_right ?_
  intro _
  constructor
  · intro hThird
    obtain ⟨n, hn⟩ := Nat.exists_eq_succ_of_ne_zero (show misses key rounds ≠ 0 by omega)
    obtain ⟨before, hMissed, hBefore⟩ := misses_succ_iff.mp hn
    exact ⟨before, hMissed, misses_pos_iff.mp (by omega)⟩
  · rintro ⟨before, hMissed, hAgain⟩
    have hPos := misses_pos_iff.mpr hAgain
    have hSucc := misses_succ_iff.mpr ⟨before, hMissed, rfl⟩
    omega

/-- The entry of a key leaves the map in the round that gives the key up. -/
theorem erased_iff :
    ((final round init rounds).mServiceKeys key ≠ none ∧
      (final round init (rounds ++ [r])).mServiceKeys key = none) ↔ Lost key rounds r := by
  rw [final_snoc]
  set s := final round init rounds
  by_cases hLost : Lost key rounds r
  · obtain ⟨hMember, hMany⟩ := lost_iff.mp hLost
    have hThird : (s.view key).misses.getD 0 + 1 ≥ 3 := hMany
    have hView := congrArg KeyView.misses (view_round_mem (s := s) hMember)
    rw [KeyView.observe_lost hThird] at hView
    refine iff_of_true ⟨fun hNone => ?_, hView⟩ hLost
    -- a key without an entry has no misses
    rw [show (s.view key).misses = none from hNone] at hThird
    exact absurd hThird (by decide)
  · refine iff_of_false ?_ hLost
    rintro ⟨hSome, hNone⟩
    by_cases hIn : key ∈ r.members.map Prod.fst
    · obtain ⟨existed, hMember⟩ := mem_members_iff.mp hIn
      have hView := congrArg KeyView.misses (view_round_mem (s := s) hMember)
      rw [show ((s.round r).view key).misses = none from hNone] at hView
      cases existed with
      | true => cases hView
      | false =>
        have hFew : (s.view key).misses.getD 0 + 1 < 3 :=
          Nat.not_le.mp fun hThird => hLost (lost_iff.mpr ⟨hMember, hThird⟩)
        rw [KeyView.observe_miss hFew] at hView
        cases hView
    · have hView := congrArg KeyView.misses (view_round_ne (s := s) hIn)
      exact hSome (hView.symm.trans hNone)

end

/-- **Loss detection.** `"-key"` is published in a round exactly if the key is a member that is
missing, as it was in the two rounds before that had it as a member and published no `"-key"`;
and in that round, and no other, it is removed from the three sets and from the map. -/
theorem loss_detected_iff (key : ServiceKey) (rounds : List Round) (r : Round) :
    (RegistryCommand.publish (minus key) ∈ commandsAfter rounds r ↔
      (key, false) ∈ r.members ∧
        ∃ before, Missed key rounds before ∧ ∃ before', Missed key before before') ∧
    (RegistryCommand.srem key ∈ commandsAfter rounds r ↔ Lost key rounds r) ∧
    (∀ set, RegistryCommand.zrem set key ∈ commandsAfter rounds r ↔ Lost key rounds r) ∧
    (((final round init rounds).mServiceKeys key ≠ none ∧
      (final round init (rounds ++ [r])).mServiceKeys key = none) ↔ Lost key rounds r) := by
  refine ⟨lost_iff_missed, ?_, ?_, erased_iff⟩
  · exact (mem_commands_iff (by simp [givingUp])).trans lost_iff.symm
  · intro set
    refine (mem_commands_iff ?_).trans lost_iff.symm
    cases set <;> simp [givingUp]

/-- The third miss of a key, with a round between that does not have it as a member. -/
example : Lost [103] [⟨[([103], false)], by decide⟩, ⟨[], by decide⟩, ⟨[([103], false)], by decide⟩]
    ⟨[([103], false)], by decide⟩ := by
  unfold Lost
  decide

end ServiceRegistry

end WarringServer.CenterServer
