import Mathlib.Data.List.Basic
import Mathlib.Tactic.Common

/-!
# Runs of event-driven machines

A machine is a step function `step : σ → ε → σ`; an event list drives it from a
start state. The development speaks of such runs in four ways:

* `Always step P s es` — `P` holds at the start and after every event;
* `Each step C s es` — every event meets the condition `C` in the state it
  is taken from;
* `final step s es` — the state after the last event;
* `outputs step out s es` — what the steps put out, one after the other.

The rules turn a one-step fact into a fact about runs:

* `always_of_each` — a condition on the steps is enough for the invariant;
* `always_iff_each` — it is also necessary, when one step keeps the
  invariant exactly if it meets the condition;
* `always_of_step` — the unconditional invariant rule;
* `final_filter` — two runs, the second without the events that are filtered out;
* `outputs_queue` — what goes through a queue.

The first two carry a side invariant `J` over the state and the events still to
come: what a run promises about its future input (for instance that the
bytes still to arrive complete the ones received) is not a fact about the state
alone.
-/

namespace Run

variable {σ ε α : Type*}

/-- `P` holds at `s` and after every event of `es`. -/
def Always (step : σ → ε → σ) (P : σ → Prop) : σ → List ε → Prop
  | s, [] => P s
  | s, e :: es => P s ∧ Always step P (step s e) es

/-- Every event of `es` meets `C` in the state it is taken from. -/
def Each (step : σ → ε → σ) (C : σ → ε → Prop) : σ → List ε → Prop
  | _, [] => True
  | s, e :: es => C s e ∧ Each step C (step s e) es

instance Each.decidable (step : σ → ε → σ) (C : σ → ε → Prop) [∀ s e, Decidable (C s e)] :
    ∀ s es, Decidable (Each step C s es)
  | _, [] => isTrue trivial
  | s, e :: es =>
    have := Each.decidable step C (step s e) es
    inferInstanceAs (Decidable (C s e ∧ Each step C (step s e) es))

/-- The state after the last event. -/
def final (step : σ → ε → σ) (s : σ) (es : List ε) : σ :=
  es.foldl step s

/-- What the steps of a run put out, one after the other. -/
def outputs (step : σ → ε → σ) (out : σ → ε → List α) : σ → List ε → List α
  | _, [] => []
  | s, e :: es => out s e ++ outputs step out (step s e) es

section

variable {step : σ → ε → σ} {P Q : σ → Prop} {C D : σ → ε → Prop} {s : σ} {es : List ε}

@[simp] theorem always_nil : Always step P s [] ↔ P s := Iff.rfl

@[simp] theorem always_cons {e : ε} :
    Always step P s (e :: es) ↔ P s ∧ Always step P (step s e) es := Iff.rfl

@[simp] theorem each_nil : Each step C s [] := trivial

@[simp] theorem each_cons {e : ε} :
    Each step C s (e :: es) ↔ C s e ∧ Each step C (step s e) es := Iff.rfl

@[simp] theorem final_nil : final step s [] = s := rfl

@[simp] theorem final_cons {e : ε} : final step s (e :: es) = final step (step s e) es := rfl

theorem final_append {es' : List ε} :
    final step s (es ++ es') = final step (final step s es) es' :=
  List.foldl_append

/-- The head of an always-true property. -/
theorem Always.start (h : Always step P s es) : P s := by
  cases es with
  | nil => exact h
  | cons e es => exact h.1

/-- An always-true property holds in the final state. -/
theorem Always.final (h : Always step P s es) : P (final step s es) := by
  induction es generalizing s with
  | nil => exact h
  | cons e es ih => exact ih h.2

theorem Always.imp (h : Always step P s es) (hPQ : ∀ s, P s → Q s) : Always step Q s es := by
  induction es generalizing s with
  | nil => exact hPQ s h
  | cons e es ih => exact ⟨hPQ s h.1, ih h.2⟩

theorem Each.imp (h : Each step C s es) (hCD : ∀ s e, C s e → D s e) : Each step D s es := by
  induction es generalizing s with
  | nil => trivial
  | cons e es ih => exact ⟨hCD s e h.1, ih h.2⟩

theorem Each.and (hC : Each step C s es) (hD : Each step D s es) :
    Each step (fun s e => C s e ∧ D s e) s es := by
  induction es generalizing s with
  | nil => trivial
  | cons e es ih => exact ⟨⟨hC.1, hD.1⟩, ih hC.2 hD.2⟩

/-- A condition that follows from another wherever the invariant holds. -/
theorem Each.imp_of_always (h : Each step C s es) (hAlways : Always step P s es)
    (hCD : ∀ s e, P s → C s e → D s e) : Each step D s es := by
  induction es generalizing s with
  | nil => trivial
  | cons e es ih => exact ⟨hCD s e hAlways.start h.1, ih h.2 hAlways.2⟩

theorem each_append {es' : List ε} :
    Each step C s (es ++ es') ↔ Each step C s es ∧ Each step C (final step s es) es' := by
  induction es generalizing s with
  | nil => simp
  | cons e es ih => simp only [List.cons_append, each_cons, final_cons, ih, and_assoc]

/-- A condition on the events alone. -/
theorem each_of_forall {D : ε → Prop} (h : ∀ e ∈ es, D e) : Each step (fun _ => D) s es := by
  induction es generalizing s with
  | nil => trivial
  | cons e es ih =>
    exact ⟨h e List.mem_cons_self, ih fun e' he' => h e' (List.mem_cons_of_mem _ he')⟩

theorem each_congr (hCD : ∀ s e, C s e ↔ D s e) : Each step C s es ↔ Each step D s es :=
  ⟨fun h => h.imp fun s e => (hCD s e).mp, fun h => h.imp fun s e => (hCD s e).mpr⟩

/-- Conditions that agree wherever the invariant holds. -/
theorem each_congr_of_inv (hStep : ∀ s e, P s → P (step s e))
    (hCD : ∀ s e, P s → (C s e ↔ D s e)) (hs : P s) : Each step C s es ↔ Each step D s es := by
  induction es generalizing s with
  | nil => exact Iff.rfl
  | cons e es ih => exact and_congr (hCD s e hs) (ih (hStep s e hs))

/-- **Exact invariant rule.** If, on the runs `J` admits, one step keeps the
invariant exactly when it meets the condition, then the invariant holds
throughout a run exactly when every step of it meets the condition. -/
theorem always_iff_each (J : σ → List ε → Prop)
    (hJ : ∀ s e es, J s (e :: es) → P s → C s e → J (step s e) es)
    (hStep : ∀ s e es, J s (e :: es) → P s → (P (step s e) ↔ C s e))
    (hs : P s) (hes : J s es) : Always step P s es ↔ Each step C s es := by
  induction es generalizing s with
  | nil => simpa using hs
  | cons e es ih =>
    -- `J` passes to the rest of the run along a step that meets the condition
    have hOne := hStep s e es hes hs
    rw [always_cons, each_cons]
    constructor
    · -- the invariant holds after the step, so the step met the condition
      rintro ⟨-, hAll⟩
      have hC : C s e := hOne.mp hAll.start
      exact ⟨hC, (ih hAll.start (hJ s e es hes hs hC)).mp hAll⟩
    · rintro ⟨hC, hRest⟩
      have hP : P (step s e) := hOne.mpr hC
      exact ⟨hs, (ih hP (hJ s e es hes hs hC)).mpr hRest⟩

/-- **Guarded invariant rule.** If, on the runs `J` admits, a step that meets the
condition keeps the invariant, then a run whose steps all meet it keeps the invariant. -/
theorem always_of_each (J : σ → List ε → Prop)
    (hJ : ∀ s e es, J s (e :: es) → P s → C s e → J (step s e) es)
    (hStep : ∀ s e es, J s (e :: es) → P s → C s e → P (step s e))
    (hs : P s) (hes : J s es) (h : Each step C s es) : Always step P s es := by
  induction es generalizing s with
  | nil => exact hs
  | cons e es ih =>
    have hNext : P (step s e) := hStep s e es hes hs h.1
    exact ⟨hs, ih hNext (hJ s e es hes hs h.1) h.2⟩

/-- **Invariant rule.** -/
theorem always_of_step (hStep : ∀ s e, P s → P (step s e)) (hs : P s) :
    Always step P s es := by
  induction es generalizing s with
  | nil => exact hs
  | cons e es ih => exact ⟨hs, ih (hStep s e hs)⟩

/-- What every step keeps, the final state has. -/
theorem final_of_step (hStep : ∀ s e, P s → P (step s e)) (hs : P s) :
    P (final step s es) :=
  (always_of_step hStep hs).final

/-- **Purge rule.** A relation that an event keeps if both runs take it, and that an event
which is dropped keeps on its own, relates a run to the one without the dropped events. -/
theorem final_filter {R : σ → σ → Prop} {keep : ε → Bool} {s' : σ}
    (hBoth : ∀ s s' e, keep e = true → R s s' → R (step s e) (step s' e))
    (hDrop : ∀ s s' e, keep e = false → C s e → R s s' → R (step s e) s')
    (hs : R s s') (h : Each step C s es) :
    R (final step s es) (final step s' (es.filter keep)) := by
  induction es generalizing s s' with
  | nil => exact hs
  | cons e es ih =>
    cases hKeep : keep e with
    | true =>
      rw [List.filter_cons_of_pos hKeep]
      exact ih (hBoth s s' e hKeep hs) h.2
    | false =>
      rw [List.filter_cons_of_neg (by simp [hKeep])]
      exact ih (hDrop s s' e hKeep h.1 hs) h.2

/-- The condition holds along every beginning of the run. -/
theorem Each.take (h : Each step C s es) (n : Nat) : Each step C s (es.take n) := by
  induction es generalizing s n with
  | nil => simp
  | cons e es ih =>
    cases n with
    | zero => trivial
    | succ n => exact ⟨h.1, ih h.2 n⟩

end

/-- **Queue rule.** If a step appends to a queue what it puts in and takes from its front what
it puts out, then what a run puts in is what it puts out and what is left. -/
theorem outputs_queue {step : σ → ε → σ} {queue : σ → List α} {enters leaves : σ → ε → List α}
    (hStep : ∀ s e, queue s ++ enters s e = leaves s e ++ queue (step s e)) (s : σ) (es : List ε) :
    queue s ++ outputs step enters s es =
      outputs step leaves s es ++ queue (final step s es) := by
  induction es generalizing s with
  | nil => simp [outputs]
  | cons e es ih =>
    rw [outputs, outputs, final_cons, ← List.append_assoc, hStep, List.append_assoc, ih,
      List.append_assoc]

end Run
