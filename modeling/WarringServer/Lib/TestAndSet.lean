import WarringServer.Lib.Run
import Mathlib.Logic.Function.Basic

/-!
# Test-and-set

A flag for every key. `take` sets the flag of its key and reports the old value, in one
step; `drop` clears the flag. Whoever took a flag that was clear holds the key until
somebody drops it.

* `held_of_not_dropped` — a flag that is set stays set up to the next `drop`;
* `dropped_between` — so between two takes of one key, the second of which found the
  flag clear, there is a `drop` of that key.

Which caller performs an operation does not matter, nor who drops: this is mutual exclusion of
sessions, not of threads.
-/

namespace TestAndSet

open Run

/-- An operation as it was performed, with what it reported. -/
inductive Op (κ : Type*) where
  | take (key : κ) (old : Bool)
  | drop (key : κ)
  deriving DecidableEq, Repr

variable {κ : Type*} [DecidableEq κ]

def step (held : κ → Bool) : Op κ → κ → Bool
  | .take key _ => Function.update held key true
  | .drop key => Function.update held key false

/-- What a `take` reports is the flag as it was. -/
def Reported (held : κ → Bool) : Op κ → Prop
  | .take key old => old = held key
  | .drop _ => True

variable {held : κ → Bool} {key : κ} {ops : List (Op κ)}

theorem held_of_not_dropped (h : held key = true) (hDrop : Op.drop key ∉ ops) :
    final step held ops key = true := by
  induction ops generalizing held with
  | nil => exact h
  | cons op ops ih =>
    refine ih ?_ fun hMem => hDrop (List.mem_cons_of_mem _ hMem)
    cases op with
    | take key' old =>
      rw [step, Function.update_apply]
      split
      · rfl
      · exact h
    | drop key' =>
      have hNe : key ≠ key' := fun hEq => hDrop (hEq ▸ List.mem_cons_self)
      rw [step, Function.update_of_ne hNe]
      exact h

/-- **Mutual exclusion.** -/
theorem dropped_between {before mid after : List (Op κ)} {old : Bool}
    (h : Each step Reported held (before ++ .take key old :: (mid ++ .take key false :: after))) :
    Op.drop key ∈ mid := by
  by_contra hDrop
  obtain ⟨-, -, hRest⟩ := each_append.mp h
  obtain ⟨-, hSecond, -⟩ := each_append.mp hRest
  -- the flag is set from the first take on
  have hSet : step (final step held before) (.take key old) key = true := by
    rw [step, Function.update_self]
  have hHeld := held_of_not_dropped hSet hDrop
  rw [Reported, hHeld] at hSecond
  cases hSecond

end TestAndSet
