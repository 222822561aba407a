import WarringServer.Utility.TimerDue

/-!
# One-shot tasks

A task of cycle number 1 is to run once, in the last tick of its delay or in the one
behind it (a registration falls between two ticks). Its node gets its slot from the
relative delay, but its seconds, minutes and rounds from the clock, and the two do not
agree when something is carried:

* the seconds may pass a full minute behind a minute slot (the node then runs a minute
  early);
* the minutes may pass a full hour behind an hour slot (an hour early);
* `mRound` counts the days from hour 0 of the clock (a day late, or more).

`one_shot_accurate_iff` — a task is on time exactly if none of these happens.
-/

namespace WarringServer.Utility

open Run

namespace TimeWheelTimer

section

variable {t : TimeWheelTimer} {task : TimerTask}

/-- The ticks before the one that runs a task registered now. -/
def firstDue (t : TimeWheelTimer) (task : TimerTask) : Nat :=
  t.due (t.slotFor task) (t.nodeFor task)

theorem firstDue_second (hHours : task.mHours = 0) (hMinutes : task.mMinutes = 0)
    (hClock : InClock t) : t.firstDue task = task.mSeconds := by
  have hLt : task.mSeconds < 60 := task.seconds_lt
  obtain ⟨hS, -⟩ := hClock
  rw [firstDue, slotFor, if_neg (not_not.mpr hHours), if_neg (not_not.mpr hMinutes),
    due_second _ (by omega)]
  omega

/-- A time of second 0 saves the tick on the second wheel. -/
def savedTick (t : TimeWheelTimer) (task : TimerTask) : Nat :=
  if (task.mSeconds + t.mSeconds) % 60 = 0 then 1 else 0

theorem savedTick_le : t.savedTick task ≤ 1 := by
  unfold savedTick
  split <;> omega

variable (t task) in
/-- Behind a minute the second wheel does without the carry of the seconds. -/
theorem secondTail_nodeFor :
    secondTail (t.nodeFor task) + t.savedTick task + 60 * ((task.mSeconds + t.mSeconds) / 60) =
      task.mSeconds + t.mSeconds + 1 := by
  show (if (task.mSeconds + t.mSeconds) % 60 > 0 then _ + 1 else 0) + t.savedTick task + _ = _
  unfold savedTick
  by_cases hZero : (task.mSeconds + t.mSeconds) % 60 = 0
  · rw [if_neg (by omega), if_pos hZero]
    omega
  · rw [if_pos (by omega), if_neg hZero]
    show (task.mSeconds + t.mSeconds) % 60 + 1 + 0 + _ = _
    omega

/-- A task of minutes is early by the minute that the seconds carry. -/
theorem firstDue_minute (hHours : task.mHours = 0) (hMinutes : task.mMinutes ≠ 0)
    (hClock : InClock t) :
    t.firstDue task + t.savedTick task + 60 * ((task.mSeconds + t.mSeconds) / 60) =
      task.delay := by
  have hLt : task.mMinutes < 60 := task.minutes_lt
  have hTail := secondTail_nodeFor t task
  obtain ⟨hS, hM⟩ := hClock
  -- the slot is that of the minutes alone, the tail that of the second it leads to
  rw [firstDue, slotFor, if_neg (not_not.mpr hHours), if_pos hMinutes,
    due_minute _ (by omega) (by omega), TimerTask.delay, hHours]
  omega

/-- A task of hours is early by the minute and the hour that are carried, and late by
the days its rounds count too many. -/
theorem firstDue_hour (hHours : task.mHours ≠ 0) (hClock : InClock t) :
    t.firstDue task + t.savedTick task + 60 * ((task.mSeconds + t.mSeconds) / 60) +
        3600 * ((task.mMinutes + t.mMinutes) / 60) + 86400 * ((task.mHours - 1) / 24) =
      task.delay + 86400 * (t.nodeFor task).mRound := by
  have hTail := secondTail_nodeFor t task
  have hNode : (t.nodeFor task).getMinutes = (task.mMinutes + t.mMinutes) % 60 := rfl
  obtain ⟨hS, hM⟩ := hClock
  -- the relative hour of the slot is that of the delay
  have hSlot : ((task.mHours + t.mHours - 1) % 24 + 60 + 60 - 96 - t.mHours % 24) % 24 =
      (task.mHours - 1) % 24 := by omega
  rw [firstDue, slotFor, if_pos hHours, due_hour _ (by omega), hNode, hSlot, TimerTask.delay]
  omega

variable (t task) in
theorem nodeFor_mRound :
    (t.nodeFor task).mRound = (task.mHours + (t.mHours +
      (task.mMinutes + t.mMinutes + (task.mSeconds + t.mSeconds) / 60) / 60)) / 24 := by
  show (if task.mHours + (t.mHours +
      (task.mMinutes + t.mMinutes + (task.mSeconds + t.mSeconds) / 60) / 60) ≥ 24 then _ else 0) = _
  split
  · rfl
  · omega

-- ---------------------------------------------------------------------------
-- On time
-- ---------------------------------------------------------------------------

/-- Nothing is carried between the wheels a task takes. The second wheel alone is
always right. -/
def NoCarry (t : TimeWheelTimer) (task : TimerTask) : Prop :=
  (task.mHours = 0 ∧ task.mMinutes = 0) ∨
  (task.mHours = 0 ∧ task.mSeconds + t.mSeconds < 60) ∨
  (task.mSeconds + t.mSeconds < 60 ∧ task.mMinutes + t.mMinutes < 60 ∧
    (task.mHours - 1) % 24 + t.mHours < 23 ∧ task.mHours ≠ 0)

instance (t : TimeWheelTimer) (task : TimerTask) : Decidable (t.NoCarry task) :=
  inferInstanceAs (Decidable (_ ∨ _ ∨ _))

/-- The due tick is the right one exactly if nothing is carried. -/
theorem firstDue_iff (hClock : InClock t) :
    (t.firstDue task + 1 = task.delay ∨ t.firstDue task = task.delay) ↔ t.NoCarry task := by
  have hSec : task.mSeconds < 60 := task.seconds_lt
  have hMin : task.mMinutes < 60 := task.minutes_lt
  have hSaved : t.savedTick task ≤ 1 := savedTick_le
  unfold NoCarry
  by_cases hHours : task.mHours = 0
  · by_cases hMinutes : task.mMinutes = 0
    · have hDue := firstDue_second hHours hMinutes hClock
      have hDelay' : task.delay = task.mSeconds := by
        rw [TimerTask.delay, hHours, hMinutes]
        omega
      omega
    · have hDue := firstDue_minute hHours hMinutes hClock
      omega
  · have hDue := firstDue_hour hHours hClock
    have hRound := nodeFor_mRound t task
    obtain ⟨hS, hM⟩ := hClock
    -- neither rounds nor carries may be in excess, as they cannot make up for each other
    have hExact : (t.firstDue task + 1 = task.delay ∨ t.firstDue task = task.delay) ↔
        (task.mSeconds + t.mSeconds) / 60 = 0 ∧ (task.mMinutes + t.mMinutes) / 60 = 0 ∧
          (t.nodeFor task).mRound = (task.mHours - 1) / 24 := by omega
    rw [hExact]
    omega

end

-- ---------------------------------------------------------------------------
-- Runs
-- ---------------------------------------------------------------------------

/-- The function `f` of the task runs exactly once after the registration, in the last
tick of the delay or the one behind it, whatever else is registered. -/
def Accurate (t : TimeWheelTimer) (task : TimerTask) (f : Callback) : Prop :=
  ∃ k, (k = task.delay ∨ k = task.delay + 1) ∧
    ∀ es : List TimerEvent, (∀ e ∈ es, e.OtherTask f) →
      (final step (t.registerTask task) es).tick.1.filter (·.task = f) =
        if ticks es + 1 = k then [⟨task.mID, f⟩] else []

section

variable {t : TimeWheelTimer} {task : TimerTask} {f : Callback}

theorem unseen_ofTask {e : TimerEvent} (h : e.OtherTask f) : e.Unseen (View.ofTask f) := by
  cases e with
  | tick => trivial
  | register task => exact ⟨decide_eq_false h, rfl⟩

theorem seesRun_ofTask : (View.ofTask f).seesRun = fun r : Firing => decide (r.task = f) := by
  funext r
  simp [View.seesRun, View.ofTask]

theorem otherTask_of_ticks (n : Nat) :
    ∀ e ∈ List.replicate n TimerEvent.tick, e.OtherTask f := by
  intro e he
  rw [List.eq_of_mem_replicate he]
  trivial

/-- A function that was never registered is in no wheel. -/
theorem reachable_vacant {es : List TimerEvent} (hOther : ∀ e ∈ es, e.OtherTask f) :
    Vacant ((final step create es).only (View.ofTask f)) :=
  run_vacant (fun e he => unseen_ofTask (hOther e he)) closed_create fun _ => rfl

theorem reachable_closed {es : List TimerEvent} (hOther : ∀ e ∈ es, e.OtherTask f)
    (hClosed : Closed (View.ofTask f) t) : Closed (View.ofTask f) (final step t es) := by
  induction es generalizing t with
  | nil => exact hClosed
  | cons e es ih =>
    exact ih (fun e he => hOther e (List.mem_cons_of_mem _ he))
      (step_closed hClosed (unseen_ofTask (hOther e List.mem_cons_self)))

/-- A one-shot node that is due runs, and nothing of it is left. -/
theorem tick_last {p : Nat} {n : TimerNode} (hClock : InClock t) (h : Alone t p n)
    (hp : p < 144) (hCycle : n.getCycNum = 1) (hDue : t.due p n = 0) :
    t.tick.1 = n.run ∧ Vacant t.tick.2 := by
  by_cases hSlot : p = t.mSeconds
  · subst hSlot
    obtain ⟨hRuns, hState⟩ := tick_expire h
    have hErase : (t.clear t.mSeconds).expireNode n =
        (t.clear t.mSeconds).eraseTimerTask n.getId := if_pos hCycle
    have hVacant : Vacant (((t.clear t.mSeconds).expireNode n).setClock (t.mSeconds + 1)
        t.mMinutes t.mHours) := by
      rw [hErase]
      exact h.clear
    obtain ⟨hNone, hStill⟩ := hVacant.tickMinute
    rw [hRuns, hState, hNone, List.append_nil]
    exact ⟨rfl, hStill⟩
  · have hTick := tick_alone h hSlot
    rw [restFate_of_due hClock hp hSlot hDue] at hTick
    exact hTick

/-- What a tick runs of a one-shot node, `es` after it was alone in the wheels. -/
theorem run_once {p : Nat} {n : TimerNode} (hClock : InClock t)
    (hClosed : Closed (View.ofTask f) t) (h : Alone (t.only (View.ofTask f)) p n) (hp : p < 144)
    (hCycle : n.getCycNum = 1) {es : List TimerEvent} (hOther : ∀ e ∈ es, e.OtherTask f) :
    (final step t es).tick.1.filter (·.task = f) = if ticks es = t.due p n then n.run else [] := by
  have hUnseen : ∀ e ∈ es, e.Unseen (View.ofTask f) := fun e he => unseen_ofTask (hOther e he)
  rw [← seesRun_ofTask, (tick_only (reachable_closed hOther hClosed)).runs]
  by_cases hLater : ticks es ≤ t.due p n
  · obtain ⟨p', n', hp', hTask', hAlone', hDue'⟩ :=
      run_until_due hUnseen hClock hClosed h hp hLater
    have hClock' : InClock (final step t es) := final_of_step step_inClock hClock
    split
    · -- the tick it was due in
      have hNow : (final step t es).due p' n' = 0 := by omega
      have hCycle' : n'.getCycNum = 1 := (getCycNum_of_task hTask').trans hCycle
      rw [(tick_last (t := (final step t es).only _) hClock' hAlone' hp' hCycle' hNow).1]
      exact run_of_task hTask'
    · -- it is still on its way
      obtain ⟨-, -, -, -, -, -, hNone⟩ := tick_on_way (t := (final step t es).only _) hClock'
        hAlone' hp' (show 0 < (final step t es).due p' n' by omega)
      exact hNone
  · -- it has run, in the tick that splits the events
    obtain ⟨es₁, es₂, rfl, hTicks⟩ := split_at_tick (Nat.lt_of_not_le hLater)
    have hOther₁ : ∀ e ∈ es₁, e.OtherTask f := fun e he => hOther e (List.mem_append_left _ he)
    have hUnseen₁ : ∀ e ∈ es₁, e.Unseen (View.ofTask f) :=
      fun e he => unseen_ofTask (hOther₁ e he)
    have hUnseen₂ : ∀ e ∈ es₂, e.Unseen (View.ofTask f) := fun e he =>
      hUnseen e (List.mem_append_right _ (List.mem_cons_of_mem _ he))
    obtain ⟨p', n', hp', hTask', hAlone', hDue'⟩ :=
      run_until_due hUnseen₁ hClock hClosed h hp (Nat.le_of_eq hTicks)
    have hClock' : InClock (final step t es₁) := final_of_step step_inClock hClock
    have hCycle' : n'.getCycNum = 1 := (getCycNum_of_task hTask').trans hCycle
    have hNow : (final step t es₁).due p' n' = 0 := by omega
    have hViews := tick_only (reachable_closed hOther₁ hClosed)
    obtain ⟨-, hVacant⟩ :=
      tick_last (t := (final step t es₁).only _) hClock' hAlone' hp' hCycle' hNow
    rw [← hViews.state] at hVacant
    -- it leaves nothing behind that could run again
    have hFinal := run_vacant (t := (final step t es₁).step .tick) hUnseen₂ hViews.closed hVacant
    rw [if_neg (by omega), final_append, final_cons]
    exact hFinal.tick.1

/-- What a tick runs of a one-shot task, `es` after its registration. -/
theorem registered_once (hClock : InClock t) (hClosed : Closed (View.ofTask f) t)
    (hVacant : Vacant (t.only (View.ofTask f))) (hCycle : task.mCycleNumber = 1)
    (hDelay : 0 < task.delay) (hTask : task.mTask = some f)
    {es : List TimerEvent} (hOther : ∀ e ∈ es, e.OtherTask f) :
    (final step (t.registerTask task) es).tick.1.filter (·.task = f) =
      if ticks es = t.firstDue task then [⟨task.mID, f⟩] else [] := by
  have hRegister : t.registerTask task = t.push (t.slotFor task) (t.nodeFor task) := by
    rw [← addTimerNodeFor_eq hDelay]
    simp [registerTask, hCycle]
  have hSees : (View.ofTask f).seesNode (t.nodeFor task) = true := decide_eq_true hTask
  have hFits : (View.ofTask f).Fits task := ⟨fun _ => .inr hCycle, nofun⟩
  have hAlone : Alone ((t.registerTask task).only (View.ofTask f)) (t.slotFor task)
      (t.nodeFor task) := by
    rw [hRegister, push_only hSees]
    exact hVacant.push _ _
  have hRun : (t.nodeFor task).run = [⟨task.mID, f⟩] := by
    have hKeep : (t.nodeFor task).mTimerTask.mTask = some f := hTask
    unfold TimerNode.run
    rw [hKeep]
    rfl
  have hClock' : InClock (t.registerTask task) := step_inClock t (.register task) hClock
  have hOnce := run_once hClock' (hClosed.registerTask hFits) hAlone (slotFor_lt task) hCycle hOther
  rw [hRun] at hOnce
  rw [hOnce, hRegister]
  rfl

end

/-- **One-shot accuracy, exactly.** In every reachable timer a one-shot task, whose
function is its own, runs once and on time if and only if nothing is carried between its
wheels. -/
theorem one_shot_accurate_iff (es : List TimerEvent) (task : TimerTask) (f : Callback)
    (hCycle : task.mCycleNumber = 1) (hDelay : 0 < task.delay) (hTask : task.mTask = some f)
    (hOwn : ∀ e ∈ es, e.OtherTask f) :
    (final step create es).Accurate task f ↔ (final step create es).NoCarry task := by
  have hClock : InClock (final step create es) := final_inClock es
  have hClosed := reachable_closed hOwn closed_create
  have hVacant := reachable_vacant hOwn
  rw [← firstDue_iff hClock]
  constructor
  · -- the ticks before the `k`-th show that it is the due one
    intro hAccurate
    obtain ⟨k, hk, hRuns⟩ := hAccurate
    have hLast : k - 1 + 1 = k := by omega
    have hRun := hRuns _ (otherTask_of_ticks (k - 1))
    rw [registered_once hClock hClosed hVacant hCycle hDelay hTask (otherTask_of_ticks _),
      ticks_replicate, if_pos hLast] at hRun
    by_cases hNow : k - 1 = (final step create es).firstDue task
    · omega
    · rw [if_neg hNow] at hRun
      cases hRun
  · intro hDue
    -- the tick it is due in is the one to name
    refine ⟨(final step create es).firstDue task + 1, by omega, ?_⟩
    intro es' hOther
    rw [registered_once hClock hClosed hVacant hCycle hDelay hTask hOther]
    by_cases hNow : ticks es' = (final step create es).firstDue task
    · rw [if_pos hNow, if_pos (by omega)]
    · rw [if_neg hNow, if_neg (by omega)]

/-- A task of 1 h 2 min 3 s, registered at second 1. -/
theorem one_shot_accurate_hour :
    (final step create [.tick]).Accurate (TimerTask.make 1 2 3 1 "t" (some 7)) 7 :=
  (one_shot_accurate_iff [.tick] (TimerTask.make 1 2 3 1 "t" (some 7)) 7 rfl (by decide) rfl
    (otherTask_of_ticks 1)).mpr (by decide)

/-- A task of 90 s, registered at second 40, runs a minute early. -/
theorem one_shot_early :
    ¬(final step create (List.replicate 40 .tick)).Accurate
      (TimerTask.make 0 1 30 1 "t" (some 7)) 7 := by
  have hOwn : ∀ e ∈ List.replicate 40 TimerEvent.tick, e.OtherTask 7 := otherTask_of_ticks 40
  have hClock := final_inClock (List.replicate 40 .tick)
  have hSecond := mSeconds_of_ticks 40
  have hClosed : Closed (View.ofTask 7) _ := reachable_closed hOwn closed_create
  have hVacant := reachable_vacant hOwn
  set t := final step create (List.replicate 40 .tick)
  have hSaved : t.savedTick (TimerTask.make 0 1 30 1 "t" (some 7)) = 0 := by
    rw [savedTick, hSecond]
    rfl
  have hSum : t.firstDue (TimerTask.make 0 1 30 1 "t" (some 7)) + _ +
      60 * ((30 + t.mSeconds) / 60) = 90 := firstDue_minute rfl (by decide) hClock
  have hDue : t.firstDue (TimerTask.make 0 1 30 1 "t" (some 7)) = 30 := by
    rw [hSaved, hSecond] at hSum
    omega
  intro hAccurate
  obtain ⟨k, hk, hRuns⟩ := hAccurate
  have hLate : k = 90 ∨ k = 91 := hk
  -- the 31st tick runs it, and the one it was to run at does not come before the 90th
  have hRun := hRuns _ (otherTask_of_ticks 30)
  rw [registered_once (f := 7) hClock hClosed hVacant rfl (by decide) rfl (otherTask_of_ticks 30),
    ticks_replicate, hDue, if_pos rfl, if_neg (by omega)] at hRun
  cases hRun

end TimeWheelTimer

end WarringServer.Utility
