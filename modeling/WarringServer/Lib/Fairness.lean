import Mathlib.Order.WellFounded
import WarringServer.Lib.Run

/-!
# Fair schedules

The steps of a machine belong to parties. An endless schedule is fair to a set of parties if
each of them comes to its turn again and again; a party that cannot move when its turn comes
lets it pass, and a schedule may contain steps of nobody, which the environment takes.

* `nth` — the state after so many events of a schedule;
* `nth_of_step` — what every step keeps, every state has;
* `eventually_of_rank` — the progress rule: in every state short of the goal some party is
  due, whose next step lowers a well-founded rank; until it comes to its turn nobody else raises the
  rank, or makes another party due without lowering it.
-/

namespace Run

variable {σ ε ι α : Type*}

/-- The state after the first `k` events of an endless schedule. -/
def nth (step : σ → ε → σ) (s : σ) (es : Nat → ε) : Nat → σ
  | 0 => s
  | k + 1 => step (nth step s es k) (es k)

/-- Every one of the parties comes to its turn again and again. -/
def Fair (party : ε → Option ι) (parties : Set ι) (es : Nat → ε) : Prop :=
  ∀ p ∈ parties, ∀ k, ∃ j, k ≤ j ∧ party (es j) = some p

section

variable {step : σ → ε → σ} {s : σ} {es : Nat → ε} {C : σ → ε → Prop} {P Goal : σ → Prop}

/-- **Invariant rule.** From the state in which it holds first, the invariant holds for ever. -/
theorem nth_of_step (P : σ → Prop) (hStep : ∀ s e, P s → P (step s e)) {k j : Nat}
    (hs : P (nth step s es k)) (hj : k ≤ j) : P (nth step s es j) := by
  induction j, hj using Nat.le_induction with
  | base => exact hs
  | succ j _ ih => exact hStep _ _ ih

/-- What a step does on the way to the goal. -/
def Advances [LT α] (party : ε → Option ι) (P Goal : σ → Prop) (rank : σ → α) (due : σ → ι)
    (s : σ) (e : ε) (s' : σ) : Prop :=
  Goal s' ∨ P s' ∧
    (rank s' < rank s ∨ rank s' = rank s ∧ due s' = due s ∧ party e ≠ some (due s))

variable [Preorder α] {party : ε → Option ι} {parties : Set ι} {rank : σ → α} {due : σ → ι}

/-- Until the party that is due comes to its turn, something is gained. -/
theorem gain_of_turn
    (hStep : ∀ s e, P s → C s e → ¬ Goal s → Advances party P Goal rank due s e (step s e))
    (hEach : ∀ k, C (nth step s es k) (es k)) {k : Nat} (hk : P (nth step s es k))
    {j : Nat} (hj : k ≤ j) (hTurn : party (es j) = some (due (nth step s es k))) :
    ∃ m, k ≤ m ∧ (Goal (nth step s es m) ∨
      P (nth step s es m) ∧ rank (nth step s es m) < rank (nth step s es k)) := by
  -- on the number of events until then
  obtain ⟨d, rfl⟩ := Nat.exists_eq_add_of_le hj
  clear hj
  induction d generalizing k with
  | zero =>
    by_cases hGoal : Goal (nth step s es k)
    · exact ⟨k, le_rfl, Or.inl hGoal⟩
    rcases hStep _ _ hk (hEach k) hGoal with hGoal | ⟨hP, hLess | ⟨-, -, hOther⟩⟩
    · exact ⟨k + 1, Nat.le_succ k, Or.inl hGoal⟩
    · exact ⟨k + 1, Nat.le_succ k, Or.inr ⟨hP, hLess⟩⟩
    · exact absurd hTurn hOther
  | succ d ih =>
    by_cases hGoal : Goal (nth step s es k)
    · exact ⟨k, le_rfl, Or.inl hGoal⟩
    rcases hStep _ _ hk (hEach k) hGoal with hGoal | ⟨hP, hLess | ⟨hRank, hDue, -⟩⟩
    · exact ⟨k + 1, Nat.le_succ k, Or.inl hGoal⟩
    · exact ⟨k + 1, Nat.le_succ k, Or.inr ⟨hP, hLess⟩⟩
    · -- the same party is due, one event later
      have hTurn' : party (es (k + 1 + d)) = some (due (nth step s es (k + 1))) := by
        rw [Nat.add_right_comm, Nat.add_assoc, hTurn]
        exact congrArg some hDue.symm
      obtain ⟨m, hm, hGain⟩ := ih (k := k + 1) hP hTurn'
      rw [show rank (nth step s es (k + 1)) = rank (nth step s es k) from hRank] at hGain
      exact ⟨m, by omega, hGain⟩

/-- **Progress rule.** A fair schedule reaches the goal. -/
theorem eventually_of_rank [WellFoundedLT α] (P Goal : σ → Prop) (rank : σ → α) (due : σ → ι)
    (hStep : ∀ s e, P s → C s e → ¬ Goal s → Advances party P Goal rank due s e (step s e))
    (hDue : ∀ s, P s → ¬ Goal s → due s ∈ parties)
    (hEach : ∀ k, C (nth step s es k) (es k)) (hFair : Fair party parties es) {k : Nat}
    (hk : P (nth step s es k)) : ∃ m, k ≤ m ∧ Goal (nth step s es m) := by
  suffices hRank : ∀ r k, P (nth step s es k) → rank (nth step s es k) = r →
      ∃ m, k ≤ m ∧ Goal (nth step s es m) from hRank _ k hk rfl
  intro r
  induction r using WellFoundedLT.induction with
  | ind r ih =>
    intro k hk hr
    by_cases hGoal : Goal (nth step s es k)
    · exact ⟨k, le_rfl, hGoal⟩
    obtain ⟨j, hj, hTurn⟩ := hFair _ (hDue _ hk hGoal) k
    obtain ⟨m, hm, hGoal | ⟨hP, hLess⟩⟩ := gain_of_turn hStep hEach hk hj hTurn
    · exact ⟨m, hm, hGoal⟩
    · obtain ⟨m', hm', hGoal⟩ := ih _ (hr ▸ hLess) m hP rfl
      exact ⟨m', by omega, hGoal⟩

end

end Run
