import WarringServer.Thread.WorkerPool

/-!
# Cancelling a worker

Three questions about the commands of the controller, each about every interleaving of its
statements with the steps of the workers.

* `cancelWhenComplete_executes` — with `CANCEL_WHEN_COMPLETE`, is everything that came to the
  local queue executed? The command lets the worker leave its loop before it tells it
  to drain the queue, so the worker may find the queue not to be drained.
* `cancel_calls_once` — with `CANCEL`, is every task called once at most? The worker tests
  its queue and pops from it in two steps, and does not look at the result of the pop; after
  a `clear` between the two it calls what the variable still holds.
* `returned_inactive_iff` — is a worker that has returned inactive? Not if it has
  returned for want of an external queue, which it has not found when it looked for it with
  nothing in its local one.
-/

namespace WarringServer.Thread

open Run

-- ---------------------------------------------------------------------------
-- How `work` ends
-- ---------------------------------------------------------------------------

namespace Worker

variable {w : Worker} {loadLevel : Nat → Nat → Level} {timeout : Bool} {external : List Task}

/-- What a step has to do with the end of `work`. -/
inductive Ending (w : Worker) : Worker → Prop where
  /-- `work` goes on. -/
  | inside {w' : Worker} (hInactive : w'.pc ≠ .inactive) (hReturned : w'.pc ≠ .returned)
      (hSame : w'.mInactive = w.mInactive) : Ending w w'
  /-- It returns for want of an external queue. -/
  | early (hPc : w.pc = .test) (hTasks : w.mTasks = []) (hNull : w.p = false) :
      Ending w { w with pc := .returned }
  | unwiped (hPc : w.pc = .wipe) (hWipe : w.mWipe = false) : Ending w { w with pc := .inactive }
  | drained (hPc : w.pc = .drain) (hTasks : w.mTasks = []) : Ending w { w with pc := .inactive }
  | last (hPc : w.pc = .inactive) : Ending w { w with mInactive := true, pc := .returned }
  | over (hPc : w.pc = .returned) : Ending w w

/-- **The end of `work`**, said once for all statements. -/
theorem step_ending (w : Worker) (loadLevel : Nat → Nat → Level) (timeout : Bool)
    (external : List Task) : w.Ending (w.step loadLevel timeout external).1 := by
  unfold step
  rcases hPc : w.pc with _ | _ | _ | _ | _ | drain | ⟨drain, popped⟩ | _ | ⟨wait, task⟩ | _ | n |
    _ | x | temp | _ | _ | _ | _
  case test =>
    by_cases hTasks : w.mTasks = []
    · rcases hNull : w.p with _ | _
      · simpa [hTasks, hNull] using Ending.early hPc hTasks hNull
      · exact .inside (by simp [hTasks]) (by simp [hTasks]) rfl
    · exact .inside (by simp [hTasks]) (by simp [hTasks]) rfl
  case wipe =>
    by_cases hWipe : w.mWipe = true
    · exact .inside (by simp [hWipe]) (by simp [hWipe]) rfl
    · simpa [hWipe] using Ending.unwiped hPc (Bool.eq_false_iff.mpr hWipe)
  case drain =>
    by_cases hTasks : w.mTasks = []
    · simpa [hTasks] using Ending.drained hPc hTasks
    · exact .inside (by simp [hTasks]) (by simp [hTasks]) rfl
  case inactive => exact .last hPc
  case returned => exact .over hPc
  all_goals exact .inside (by grind) (by grind) (by grind)

end Worker

-- ---------------------------------------------------------------------------
-- `CANCEL_WHEN_COMPLETE`
-- ---------------------------------------------------------------------------

namespace Worker

/-- What came to the local queue is accounted for, and none of it is left there at the end. -/
structure Drained (w : Worker) : Prop where
  accounted : w.moved = w.ran ++ w.current ++ w.mTasks
  empty : w.pc = .inactive ∨ w.pc = .returned → w.mTasks = []

variable {w : Worker} {loadLevel : Nat → Nat → Level}

theorem drained_new : new.Drained := ⟨rfl, fun _ => rfl⟩

/-- A worker that tests `mWipe` must find it set, or have nothing to drain. -/
theorem Drained.step (h : w.Drained) (timeout : Bool) (external : List Task)
    (hWipe : w.pc = .wipe → w.mWipe = true ∨ w.mTasks = []) :
    (w.step loadLevel timeout external).1.Drained where
  accounted := (w.step_move loadLevel timeout external).accounted h.accounted
  empty hEnd := by
    have hEnding := w.step_ending loadLevel timeout external
    generalize (w.step loadLevel timeout external).1 = w' at hEnd hEnding
    rcases hEnding with ⟨hInactive, hReturned, -⟩ | ⟨-, hTasks, -⟩ | ⟨hPc, hUnset⟩ | ⟨-, hTasks⟩ |
      hPc | hPc
    · rcases hEnd with hEnd | hEnd
      · exact absurd hEnd hInactive
      · exact absurd hEnd hReturned
    · exact hTasks
    · rcases hWipe hPc with hSet | hTasks
      · rw [hUnset] at hSet
        cases hSet
      · exact hTasks
    · exact hTasks
    · exact h.empty (Or.inl hPc)
    · exact h.empty (Or.inr hPc)

theorem Drained.execute (h : w.Drained) {statement : Statement} (hClear : statement ≠ .clear) :
    (w.execute statement).Drained := by
  rcases statement with _ | _ | _ | _ | _ | _ | _ | _
  case clear => exact absurd rfl hClear
  all_goals exact ⟨h.accounted, h.empty⟩

theorem ran_subset_executed : w.ran ⊆ w.executed := by
  intro task hTask
  obtain ⟨i, hi, hFresh⟩ := List.mem_filterMap.mp hTask
  refine List.mem_filterMap.mpr ⟨i, hi, ?_⟩
  rw [Invocation.fresh] at hFresh
  split at hFresh
  · exact hFresh
  · cases hFresh

theorem Drained.executed (h : w.Drained) (hPc : w.pc = .returned) : w.moved ⊆ w.executed := by
  have hCurrent : w.current = [] := by rw [current, hPc]
  rw [h.accounted, hCurrent, h.empty (Or.inr hPc), List.append_nil, List.append_nil]
  exact ran_subset_executed

end Worker

namespace Pool

variable {s : Pool} {loadLevel : Nat → Nat → Level}

/-- The property: what a worker that has returned had moved to its local queue is executed. -/
def Executed (s : Pool) : Prop :=
  ∀ w ∈ s.workers, w.pc = .returned → w.moved ⊆ w.executed

instance : DecidablePred Executed :=
  fun s => inferInstanceAs (Decidable (∀ w ∈ s.workers, _ → _))

/-- A worker that tests `mWipe` finds it set, or has nothing to drain. -/
def WipeSeen (s : Pool) : PoolEvent → Prop
  | .work i _ => ∀ w ∈ s.workers[i]?, w.pc = .wipe → w.mWipe = true ∨ w.mTasks = []
  | .push | .control => True

instance (s : Pool) : ∀ e, Decidable (s.WipeSeen e)
  | .work i _ => inferInstanceAs (Decidable (∀ w ∈ s.workers[i]?, _ → _))
  | .push | .control => isTrue trivial

/-- **`CANCEL_WHEN_COMPLETE` loses nothing** in a run where no worker tests `mWipe` too early. -/
theorem cancelWhenComplete_executes {n : Nat} {commands : List (Nat × Command)}
    {es : List PoolEvent} (hCommands : ∀ c ∈ commands, c.2 ≠ .cancel)
    (h : Each (step loadLevel) WipeSeen (new n commands) es) :
    Always (step loadLevel) Executed (new n commands) es := by
  have hDrained : Always (step loadLevel)
      (fun s => (∀ w ∈ s.workers, w.Drained) ∧ ∀ c ∈ s.controller, c.2 ≠ .clear)
      (new n commands) es := by
    refine always_of_each (fun _ _ => True) (fun _ _ _ _ _ _ => trivial) ?_ ⟨?_, ?_⟩ trivial h
    · rintro s e - - ⟨hWorkers, hClear⟩ hSeen
      refine ⟨forall_step ?_ ?_ hWorkers, fun c hc => hClear c ((controller_step e).subset hc)⟩
      · rintro i timeout w rfl hw hDrained
        exact hDrained.step timeout s.external (hSeen w hw)
      · rintro i statement controller w - hController - hDrained
        exact hDrained.execute (hClear (i, statement) (hController ▸ List.mem_cons_self))
    · intro w hw
      rw [List.eq_of_mem_replicate hw]
      exact Worker.drained_new
    · exact noClear_new hCommands
  exact hDrained.imp fun s hs w hw hPc => (hs.1 w hw).executed hPc

/-- The worker has a task when the command begins, and looks at `mWipe` when it is complete:
it drains its queue and returns. -/
theorem cancelWhenComplete_executes_one :
    let s := new 1 [(0, .linkExternalTasks), (0, .cancelWhenComplete)]
    let es := [.push, .control] ++ List.replicate 7 (.work 0 false) ++
      [.control, .control, .control] ++ List.replicate 11 (.work 0 false)
    Always (step exactLevel) Executed s es ∧
      (final (step exactLevel) s es).workers.map (fun w => (w.pc, w.moved, w.executed)) =
        [(.returned, [0], [0])] :=
  ⟨cancelWhenComplete_executes (by decide) (by decide), by decide⟩

/-- The worker leaves its loop between `mRunning = false` and `mWipe = true`. -/
theorem not_executed : ¬ Always (step exactLevel) Executed
    (new 1 [(0, .linkExternalTasks), (0, .cancelWhenComplete)])
    [.push, .control, .work 0 false, .work 0 false, .work 0 false, .work 0 false, .work 0 false,
      .work 0 false, .work 0 false, .work 0 false, .work 0 false, .work 0 false, .work 0 false,
      .control, .work 0 false, .work 0 false, .work 0 false] := by
  intro h
  exact absurd h.final (by decide)

-- ---------------------------------------------------------------------------
-- `CANCEL`
-- ---------------------------------------------------------------------------

/-- The property: a call follows a pop that has returned a task, and no task is called twice. -/
structure CallsOnce (s : Pool) : Prop where
  popped : ∀ w ∈ s.workers, ∀ i ∈ w.invoked, i.popped = true
  once : (s.workers.flatMap Worker.executed).Nodup

/-- A `clear` does not come between a worker's test of its queue and its pop. -/
def ClearApart (s : Pool) : PoolEvent → Prop
  | .control => ∀ c ∈ s.controller.head?, c.2 = .clear → ∀ w ∈ s.workers[c.1]?,
    ∀ drain, w.pc ≠ .pop drain
  | .push | .work _ _ => True

instance (s : Pool) : ∀ e, Decidable (s.ClearApart e)
  | .control => inferInstanceAs (Decidable (∀ c ∈ s.controller.head?, _ → _))
  | .push | .work _ _ => isTrue trivial

theorem callsOnce_of_valid (hInv : s.Inv) (hValid : ∀ w ∈ s.workers, w.Valid) : s.CallsOnce where
  popped w hw i hi := ((hValid w hw).called i hi).1
  once := by
    have hPlaces := hInv.places.nodup_iff.mpr List.nodup_range
    have hKept := ((List.nodup_append.mp (List.nodup_append.mp hPlaces).1).2).1
    rw [List.flatMap_congr fun w hw => (hValid w hw).executed_eq]
    refine hKept.sublist (List.Sublist.flatMap_right _ fun w _ => ?_)
    rw [Worker.kept, List.append_assoc, List.append_assoc]
    exact List.sublist_append_left _ _

/-- **No task runs twice under `CANCEL`** in a run where no `clear` comes before a pop. -/
theorem cancel_calls_once {n : Nat} {commands : List (Nat × Command)} {es : List PoolEvent}
    (h : Each (step loadLevel) ClearApart (new n commands) es) :
    Always (step loadLevel) CallsOnce (new n commands) es := by
  have hValid : Always (step loadLevel) (fun s => s.Inv ∧ ∀ w ∈ s.workers, w.Valid)
      (new n commands) es := by
    refine always_of_each (fun _ _ => True) (fun _ _ _ _ _ _ => trivial) ?_ ⟨?_, ?_⟩ trivial h
    · rintro s e - - ⟨hInv, hWorkers⟩ hApart
      refine ⟨hInv.step e, forall_step ?_ ?_ hWorkers⟩
      · rintro i timeout w - - hValid
        exact hValid.step timeout s.external
      · rintro i statement controller w rfl hController hw hValid
        refine hValid.execute ?_
        intro hClear
        subst hClear
        exact hApart (i, .clear) (by rw [hController]; rfl) rfl w hw
    · exact inv_new n commands
    · intro w hw
      rw [List.eq_of_mem_replicate hw]
      exact Worker.valid_new
  exact hValid.imp fun s hs => callsOnce_of_valid hs.1 hs.2

/-- Three tasks: the first has been run when the command comes, and the others are dropped. -/
theorem cancel_calls_once_early :
    let s := new 1 [(0, .linkExternalTasks), (0, .cancel)]
    let es := [.push, .push, .push, .control] ++ List.replicate 19 (.work 0 false) ++
      [.control, .control, .control] ++ List.replicate 8 (.work 0 false)
    Always (step exactLevel) CallsOnce s es ∧ (final (step exactLevel) s es).dropped = [1, 2] ∧
      (final (step exactLevel) s es).workers.map (fun w => (w.pc, w.executed)) =
        [(.returned, [0])] :=
  ⟨cancel_calls_once (by decide), by decide, by decide⟩

/-- Two tasks: the first has been run, and the second is cleared before its pop. The first
is run again. -/
theorem not_callsOnce : ¬ Always (step exactLevel) CallsOnce
    (new 1 [(0, .linkExternalTasks), (0, .cancel)])
    ([.push, .push, .control] ++ List.replicate 26 (.work 0 false) ++
      [.control, .control, .control, .work 0 false, .work 0 false]) := by
  intro h
  exact absurd h.final.once (by decide)

-- ---------------------------------------------------------------------------
-- Inactive workers
-- ---------------------------------------------------------------------------

/-- The property: a worker that has returned can be seen to be inactive. -/
def Visible (s : Pool) : Prop := ∀ w ∈ s.workers, w.pc = .returned → w.mInactive = true

instance : DecidablePred Visible :=
  fun s => inferInstanceAs (Decidable (∀ w ∈ s.workers, _ → _))

/-- The property now, and after the next statement of any worker. -/
def VisibleNext (loadLevel : Nat → Nat → Level) (s : Pool) : Prop :=
  s.Visible ∧ ∀ i timeout, (s.step loadLevel (.work i timeout)).Visible

/-- A worker that looks for its external queue finds it, or has tasks in its local one. -/
def Linked (s : Pool) : PoolEvent → Prop
  | .work i _ => ∀ w ∈ s.workers[i]?, w.pc = .lock → w.linked = true ∨ w.mTasks ≠ []
  | .push | .control => True

instance (s : Pool) : ∀ e, Decidable (s.Linked e)
  | .work i _ => inferInstanceAs (Decidable (∀ w ∈ s.workers[i]?, _ → _))
  | .push | .control => isTrue trivial

end Pool

namespace Worker

variable {w : Worker} {loadLevel : Nat → Nat → Level} {timeout : Bool} {external : List Task}

/-- Only the last statement of `work` sets `mInactive`. -/
theorem mInactive_step (h : (w.step loadLevel timeout external).1.mInactive = true) :
    w.mInactive = true ∨ (w.step loadLevel timeout external).1.pc = .returned := by
  have hEnding := w.step_ending loadLevel timeout external
  generalize (w.step loadLevel timeout external).1 = w' at h hEnding ⊢
  rcases hEnding with ⟨-, -, hSame⟩ | _ | _ | _ | _ | _
  · exact Or.inl (hSame ▸ h)
  · exact Or.inl h
  · exact Or.inl h
  · exact Or.inl h
  · exact Or.inr rfl
  · exact Or.inl h

/-- A worker that has looked for its external queue has found it, or has tasks. -/
def Supplied (w : Worker) : Prop := w.pc = .test → w.p = true ∨ w.mTasks ≠ []

/-- **One step.** A worker that is inactive if it has returned stays so, unless it returns for
want of a queue. -/
theorem visible_step_iff (hInactive : w.mInactive = true → w.pc = .returned)
    (h : w.pc = .returned → w.mInactive = true) :
    ((w.step loadLevel timeout external).1.pc = .returned →
        (w.step loadLevel timeout external).1.mInactive = true) ↔ w.Supplied := by
  constructor
  · intro hNext hPc
    by_contra hWant
    obtain ⟨hNull, hTasks⟩ := not_or.mp hWant
    have hStep : (w.step loadLevel timeout external).1 = { w with pc := .returned } := by
      rw [step.eq_def, hPc]
      simp [not_not.mp hTasks, hNull]
    rw [hStep] at hNext
    have hReturned := hInactive (hNext rfl)
    rw [hPc] at hReturned
    cases hReturned
  · intro hSupplied hNext
    have hEnding := w.step_ending loadLevel timeout external
    generalize (w.step loadLevel timeout external).1 = w' at hNext hEnding ⊢
    rcases hEnding with ⟨-, hReturned, -⟩ | ⟨hPc, hTasks, hNull⟩ | _ | _ | hPc | hPc
    · exact absurd hNext hReturned
    · rcases hSupplied hPc with hFound | hSome
      · rw [hNull] at hFound
        cases hFound
      · exact absurd hTasks hSome
    · cases hNext
    · cases hNext
    · rfl
    · exact h hPc

/-- The test comes after the look for the external queue, and nothing is taken in between. -/
theorem step_test (hNext : (w.step loadLevel timeout external).1.pc = .test) :
    w.pc = .lock ∧ (w.step loadLevel timeout external).1 = { w with p := w.linked, pc := .test } := by
  unfold step at hNext ⊢
  rcases hPc : w.pc with _ | _ | _ | _ | _ | drain | ⟨drain, popped⟩ | _ | ⟨wait, task⟩ | _ | n |
    _ | x | temp | _ | _ | _ | _
  case lock => exact ⟨rfl, rfl⟩
  all_goals
    exfalso
    rw [hPc] at hNext
    grind

theorem supplied_step_iff : (w.step loadLevel timeout external).1.Supplied ↔
    (w.pc = .lock → w.linked = true ∨ w.mTasks ≠ []) := by
  constructor
  · intro hSupplied hPc
    have hStep : (w.step loadLevel timeout external).1 = { w with p := w.linked, pc := .test } := by
      rw [step.eq_def, hPc]
    rw [hStep] at hSupplied
    exact hSupplied rfl
  · intro hLinked hNext
    obtain ⟨hPc, hStep⟩ := step_test hNext
    rw [hStep]
    exact hLinked hPc

end Worker

namespace Pool

variable {s : Pool} {loadLevel : Nat → Nat → Level}

theorem mInactive_execute {w : Worker} {statement : Statement} :
    (w.execute statement).mInactive = w.mInactive ∧ (w.execute statement).pc = w.pc := by
  rcases statement with _ | _ | _ | _ | _ | _ | _ | _
  all_goals exact ⟨rfl, rfl⟩

theorem supplied_execute {w : Worker} {statement : Statement} (hClear : statement ≠ .clear)
    (h : w.Supplied) : (w.execute statement).Supplied := by
  rcases statement with _ | _ | _ | _ | _ | _ | _ | _
  case clear => exact absurd rfl hClear
  all_goals exact h

/-- What holds in every run without `CANCEL`: an inactive worker has returned. -/
structure Plain (s : Pool) : Prop where
  inactive : ∀ w ∈ s.workers, w.mInactive = true → w.pc = .returned
  noClear : ∀ c ∈ s.controller, c.2 ≠ .clear

theorem Plain.step (h : s.Plain) (e : PoolEvent) : (s.step loadLevel e).Plain where
  inactive := by
    refine forall_step ?_ ?_ h.inactive
    · rintro i timeout w - - hw hNext
      rcases Worker.mInactive_step hNext with hOld | hReturned
      · rw [Worker.step.eq_def, hw hOld]
        exact hw hOld
      · exact hReturned
    · rintro i statement controller w - - - hw
      rw [mInactive_execute.1, mInactive_execute.2]
      exact hw
  noClear c hc := h.noClear c ((controller_step e).subset hc)

theorem workers_work {i : Nat} {timeout : Bool} {w : Worker} (hw : s.workers[i]? = some w) :
    (s.step loadLevel (.work i timeout)).workers =
      s.workers.set i (w.step loadLevel timeout s.external).1 := by
  rw [step, hw]

theorem mem_workers_work {i : Nat} {timeout : Bool} {w : Worker} (hw : s.workers[i]? = some w) :
    (w.step loadLevel timeout s.external).1 ∈ (s.step loadLevel (.work i timeout)).workers := by
  rw [workers_work hw]
  exact List.mem_set (List.getElem?_eq_some_iff.mp hw).1 _

/-- The next statement of a worker can only make it return unseen if it is not supplied. -/
theorem visibleNext_iff (h : s.Plain) :
    s.VisibleNext loadLevel ↔ s.Visible ∧ ∀ w ∈ s.workers, w.Supplied := by
  refine and_congr_right fun hVisible => ⟨fun hNext w hw => ?_, fun hSupplied i timeout => ?_⟩
  · obtain ⟨i, hi⟩ := List.mem_iff_getElem?.mp hw
    exact (Worker.visible_step_iff (h.inactive w hw) (hVisible w hw)).mp
      (hNext i false _ (mem_workers_work hi))
  · refine forall_step (e := .work i timeout) ?_ (fun _ _ _ _ hControl => nomatch hControl) hVisible
    rintro j timeout' w - hw hSeen
    have hMem := List.mem_of_getElem? hw
    exact (Worker.visible_step_iff (h.inactive w hMem) hSeen).mpr (hSupplied w hMem)

/-- **One event.** -/
theorem visible_event_iff (h : s.Plain) (hNow : s.VisibleNext loadLevel) (e : PoolEvent) :
    (s.step loadLevel e).VisibleNext loadLevel ↔ s.Linked e := by
  rw [visibleNext_iff (h.step e)]
  obtain ⟨hVisible, hSupplied⟩ := (visibleNext_iff h).mp hNow
  constructor
  · rintro ⟨-, hNext⟩
    rcases e with _ | ⟨i, timeout⟩ | _
    · trivial
    · exact fun w hw => Worker.supplied_step_iff.mp (hNext _ (mem_workers_work hw))
    · trivial
  · intro hLinked
    refine ⟨?_, ?_⟩
    · refine forall_step ?_ ?_ hVisible
      · rintro i timeout w rfl hw hSeen
        have hMem := List.mem_of_getElem? hw
        exact (Worker.visible_step_iff (h.inactive w hMem) hSeen).mpr (hSupplied w hMem)
      · rintro i statement controller w - - - hSeen
        rw [mInactive_execute.1, mInactive_execute.2]
        exact hSeen
    · refine forall_step ?_ ?_ hSupplied
      · rintro i timeout w rfl hw -
        exact Worker.supplied_step_iff.mpr (hLinked w hw)
      · rintro i statement controller w - hController - hw
        exact supplied_execute (h.noClear (i, statement) (hController ▸ List.mem_cons_self)) hw

/-- **A finished worker is visibly inactive** throughout a run without `CANCEL`, and cannot
return unseen by its next statement, exactly if every worker that looks for its external queue
finds it or has tasks in its local one. -/
theorem returned_inactive_iff (loadLevel : Nat → Nat → Level) (n : Nat)
    {commands : List (Nat × Command)} (hCommands : ∀ c ∈ commands, c.2 ≠ .cancel)
    (es : List PoolEvent) :
    Always (step loadLevel) (VisibleNext loadLevel) (new n commands) es ↔
      Each (step loadLevel) Linked (new n commands) es := by
  have hNew : ∀ w ∈ (new n commands).workers, w = .new := fun w hw => List.eq_of_mem_replicate hw
  have hPlain : (new n commands).Plain := by
    refine ⟨fun w hw hInactive => ?_, noClear_new hCommands⟩
    rw [hNew w hw] at hInactive
    cases hInactive
  refine always_iff_each (fun s _ => s.Plain) (fun s e _ hs _ _ => hs.step e)
    (fun s e _ hs hNow => visible_event_iff hs hNow e) ?_ hPlain
  refine (visibleNext_iff hPlain).mpr ⟨fun w hw hPc => ?_, fun w hw hPc => ?_⟩
  · rw [hNew w hw] at hPc
    cases hPc
  · rw [hNew w hw] at hPc
    cases hPc

/-- The external queue is linked before the worker looks for it; the worker runs a task, is told
to end, and returns. -/
theorem returned_inactive_iff_linked :
    let s := new 1 [(0, .linkExternalTasks), (0, .cancelWhenComplete)]
    let es := [.push, .control] ++ List.replicate 7 (.work 0 false) ++
      [.control, .control, .control] ++ List.replicate 11 (.work 0 false)
    Always (step exactLevel) (VisibleNext exactLevel) s es ∧
      (final (step exactLevel) s es).workers.map (fun w => (w.pc, w.mInactive)) =
        [(.returned, true)] :=
  ⟨(returned_inactive_iff exactLevel 1 (by decide) _).mpr (by decide), by decide⟩

/-- The worker locks its external queue before the constructor's caller has linked one. -/
theorem not_visible : ¬ Always (step exactLevel) Visible (new 1 [(0, .linkExternalTasks)])
    [.work 0 false, .work 0 false, .work 0 false, .work 0 false, .control, .work 0 false] := by
  intro h
  exact absurd h.final (by decide)

end Pool

end WarringServer.Thread
