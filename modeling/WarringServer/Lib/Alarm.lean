import Mathlib.Tactic.Common

/-!
# Periodic alarms

An alarm rings at regular ticks, a number of times or for ever. The state of one is the
number of its rings still to come (a negative number for an alarm without end) and the
ticks before the next.

* `rings_after_iff` — the ticks in which an alarm rings;
* `after_done` — an alarm with an end rings as often as it was set to, and is gone.
-/

/-- An alarm that has not rung for the last time. -/
structure Alarm where
  cycles : Int
  left : Nat
  deriving DecidableEq, Repr

namespace Alarm

/-- The next tick rings the alarm, if it is still there. -/
def rings : Option Alarm → Bool
  | none => false
  | some a => a.left = 0

/-- A tick. An alarm that rings is set again, unless this was its last time. -/
def tick (period : Nat) : Option Alarm → Option Alarm
  | none => none
  | some ⟨cycles, left + 1⟩ => some ⟨cycles, left⟩
  | some ⟨cycles, 0⟩ =>
      if cycles = 1 then none
      else some ⟨if cycles > 0 then cycles - 1 else cycles, period - 1⟩

/-- After a number of ticks. -/
def after (period : Nat) : Nat → Option Alarm → Option Alarm
  | 0, a => a
  | k + 1, a => after period k (tick period a)

/-- How often a number of ticks rings the alarm. -/
def ringCount (period : Nat) : Nat → Option Alarm → Nat
  | 0, _ => 0
  | k + 1, a => (if rings a then 1 else 0) + ringCount period k (tick period a)

section

variable {period : Nat}

@[simp] theorem after_none (k : Nat) : after period k none = none := by
  induction k with
  | zero => rfl
  | succ k ih => exact ih

@[simp] theorem ringCount_none (k : Nat) : ringCount period k none = 0 := by
  induction k with
  | zero => rfl
  | succ k ih => exact (Nat.zero_add _).trans ih

/-- The cycles that are left behind a ring that was not the last. A negative number stands
for no end. -/
theorem cycles_rest_ne {cycles : Int} (hCycles : cycles ≠ 0) (hLast : cycles ≠ 1) :
    (if cycles > 0 then cycles - 1 else cycles) ≠ 0 := by
  split <;> omega

/-- Ring `j` of the rest is ring `j + 1` of the whole. -/
theorem exists_rest_iff (hPeriod : 0 < period) {cycles : Int} (hLast : cycles ≠ 1) (k : Nat) :
    (∃ j : Nat, k = period - 1 + j * period ∧
      (0 < (if cycles > 0 then cycles - 1 else cycles) →
        (j : Int) < if cycles > 0 then cycles - 1 else cycles)) ↔
      ∃ j : Nat, k + 1 = 0 + j * period ∧ (0 < cycles → (j : Int) < cycles) := by
  constructor
  · rintro ⟨j, hNow, hBelow⟩
    refine ⟨j + 1, ?_, ?_⟩
    · rw [Nat.succ_mul]
      omega
    · intro hPos
      rw [if_pos hPos] at hBelow
      have hLt := hBelow (by omega)
      omega
  · rintro ⟨j, hNow, hBelow⟩
    cases j with
    | zero => omega
    | succ j =>
      rw [Nat.succ_mul] at hNow
      refine ⟨j, by omega, fun hPos => ?_⟩
      split at hPos
      next hNumbered =>
        have hLt := hBelow hNumbered
        rw [if_pos hNumbered]
        omega
      next => omega

/-- **Rings.** An alarm rings in every `period`-th tick from the first one on, as often
as it is set to. -/
theorem rings_after_iff (hPeriod : 0 < period) (k : Nat) (a : Alarm) (hCycles : a.cycles ≠ 0) :
    rings (after period k (some a)) = true ↔
      ∃ j : Nat, k = a.left + j * period ∧ (0 < a.cycles → (j : Int) < a.cycles) := by
  induction k generalizing a with
  | zero =>
    refine (decide_eq_true_iff (p := a.left = 0)).trans ⟨fun hLeft => ?_, ?_⟩
    · exact ⟨0, by rw [hLeft, Nat.zero_mul], id⟩
    · rintro ⟨j, hNow, -⟩
      omega
  | succ k ih =>
    obtain ⟨cycles, left⟩ := a
    cases left with
    | succ left =>
      -- one tick closer
      refine (ih ⟨cycles, left⟩ hCycles).trans (exists_congr fun j => and_congr_left' ?_)
      dsimp only
      omega
    | zero =>
      by_cases hLast : cycles = 1
      · -- it was the last time
        have hGone : after period (k + 1) (some ⟨cycles, 0⟩) = none := by
          rw [after, tick, if_pos hLast, after_none]
        rw [hGone]
        refine iff_of_false Bool.false_ne_true ?_
        rintro ⟨j, hNow, hBelow⟩
        have hFirst : j = 0 := by
          have hLt := hBelow (by dsimp only; omega)
          dsimp only at hLt
          omega
        rw [hFirst, Nat.zero_mul] at hNow
        cases hNow
      · have hAgain : after period (k + 1) (some ⟨cycles, 0⟩) =
            after period k (some ⟨if cycles > 0 then cycles - 1 else cycles, period - 1⟩) := by
          rw [after, tick, if_neg hLast]
        rw [hAgain, ih _ (cycles_rest_ne hCycles hLast)]
        exact exists_rest_iff hPeriod hLast k

/-- **The end** of an alarm that rings `n + 1` times. -/
theorem after_done (hPeriod : 0 < period) (n left : Nat) {k : Nat} (h : left + n * period < k) :
    after period k (some ⟨n + 1, left⟩) = none ∧
      ringCount period k (some ⟨n + 1, left⟩) = n + 1 := by
  induction k generalizing n left with
  | zero => omega
  | succ k ih =>
    cases left with
    | succ left =>
      obtain ⟨hGone, hCount⟩ := ih n left (by omega)
      exact ⟨hGone, (Nat.zero_add _).trans hCount⟩
    | zero =>
      cases n with
      | zero =>
        refine ⟨after_none k, ?_⟩
        show 1 + ringCount period k none = _
        rw [ringCount_none]
      | succ n =>
        have hAgain : tick period (some ⟨((n + 1 : Nat) : Int) + 1, 0⟩) =
            some ⟨(n : Int) + 1, period - 1⟩ := by
          rw [tick, if_neg (by omega), if_pos (by omega)]
          congr 2
          omega
        rw [Nat.succ_mul] at h
        obtain ⟨hGone, hCount⟩ := ih n (period - 1) (by omega)
        rw [after, ringCount, hAgain, hGone, hCount]
        refine ⟨rfl, ?_⟩
        show 1 + (n + 1) = n + 1 + 1
        omega

end

end Alarm
