import Mathlib.Tactic.Common

/-!
# Jobs

A job works on a state `σ` and may throw. What it has done to the state by then stays:
an exception does not roll back.

`exec` runs a job. `Returns` is partial correctness of the result: whenever the job
returns, in whatever state it began, its result has the property. For that only the last
part of a job counts (`returns_bind`). A `ReadOnly` job leaves the state as it found it.
-/

/-- A computation over the state `σ` with exceptions in `ε`. -/
abbrev Job (ε σ α : Type) := ExceptT ε (StateM σ) α

namespace Job

variable {ε σ α β : Type}

/-- The outcome of a job begun in the state `s`, and the state it leaves. -/
def exec (t : Job ε σ α) (s : σ) : Except ε α × σ := t.run.run s

/-- A computation that does not touch the state. -/
def ofExcept (r : Except ε α) : Job ε σ α := ExceptT.mk (pure r)

/-- An operation that does not throw. -/
def operation (f : σ → α × σ) : Job ε σ α := ExceptT.mk fun s => (.ok (f s).1, (f s).2)

@[simp] theorem exec_pure (a : α) (s : σ) : (pure a : Job ε σ α).exec s = (.ok a, s) := rfl

theorem exec_bind (t : Job ε σ α) (f : α → Job ε σ β) (s : σ) :
    (t >>= f).exec s = match t.exec s with
      | (.ok a, s) => (f a).exec s
      | (.error e, s) => (.error e, s) := by
  simp only [exec, ExceptT.run_bind, StateT.run_bind]
  show (match t.run.run s with | (r, s) => _) = _
  rcases t.run.run s with ⟨_ | _, s⟩ <;> rfl

theorem exec_bind_ok {t : Job ε σ α} {f : α → Job ε σ β} {s s' : σ} {a : α}
    (h : t.exec s = (.ok a, s')) : (t >>= f).exec s = (f a).exec s' := by
  rw [exec_bind, h]

theorem exec_bind_error {t : Job ε σ α} {f : α → Job ε σ β} {s s' : σ} {e : ε}
    (h : t.exec s = (.error e, s')) : (t >>= f).exec s = (.error e, s') := by
  rw [exec_bind, h]

/-- Every result of the job has the property. -/
def Returns (t : Job ε σ α) (P : α → Prop) : Prop :=
  ∀ s a s', t.exec s = (.ok a, s') → P a

theorem returns_pure {P : α → Prop} {a : α} (h : P a) : Returns (pure a : Job ε σ α) P := by
  intro s a' s' hExec
  rw [exec_pure, Prod.mk.injEq, Except.ok.injEq] at hExec
  exact hExec.1 ▸ h

theorem returns_bind {P : β → Prop} {t : Job ε σ α} {f : α → Job ε σ β}
    (h : ∀ a, Returns (f a) P) : Returns (t >>= f) P := by
  intro s b s'' hExec
  rcases hFirst : t.exec s with ⟨_ | a, s'⟩
  · rw [exec_bind_error hFirst] at hExec
    cases hExec
  · rw [exec_bind_ok hFirst] at hExec
    exact h a s' b s'' hExec

/-- The job does not change the state, whether it returns or throws. -/
def ReadOnly (t : Job ε σ α) : Prop := ∀ s, (t.exec s).2 = s

theorem readOnly_pure (a : α) : ReadOnly (pure a : Job ε σ α) := fun _ => rfl

theorem readOnly_ofExcept (r : Except ε α) : ReadOnly (ofExcept r : Job ε σ α) := fun _ => rfl

/-- What follows does not change what the first part has left. -/
theorem exec_bind_readOnly {t : Job ε σ α} {f : α → Job ε σ β} (h : ∀ a, ReadOnly (f a)) (s : σ) :
    ((t >>= f).exec s).2 = (t.exec s).2 := by
  rcases hFirst : t.exec s with ⟨_ | a, s'⟩
  · rw [exec_bind_error hFirst]
  · rw [exec_bind_ok hFirst]
    exact h a s'

theorem readOnly_bind {t : Job ε σ α} {f : α → Job ε σ β} (ht : ReadOnly t)
    (hf : ∀ a, ReadOnly (f a)) : ReadOnly (t >>= f) :=
  fun s => (exec_bind_readOnly hf s).trans (ht s)

theorem readOnly_ite {p : Prop} [Decidable p] {t t' : Job ε σ α} (ht : p → ReadOnly t)
    (ht' : ¬p → ReadOnly t') : ReadOnly (if p then t else t') := by
  split
  · exact ht ‹p›
  · exact ht' ‹¬p›

end Job
