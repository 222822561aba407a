import WarringServer.Lib.Alarm
import WarringServer.Utility.OneShot
import WarringServer.Utility.Repeat

/-!
# Periodic tasks of seconds

A task without hours and minutes stays on the second wheel. Its node runs when the clock
comes back to its slot, and its successor is put into the slot `mSeconds` further on,
counted from the slot that is just being checked. Two counters of its cycles go down
together: the one of the node, which decides whether there is a successor, and the one
of the entry, from which the successor is made.

* `Follows` — the timer, as the view of an id sees it, follows an alarm;
* `tick_follows` — a tick of the timer is a tick of the alarm, and runs the task if the
  alarm rings;
* `periodic` — a task of `s` seconds runs in the ticks `s + 1`, `2 * s + 1` and so on,
  exactly as often as it is set to.
-/

namespace WarringServer.Utility

open Run

namespace TimeWheelTimer

/-- What the ticks of a run run, one after the other. -/
def firings : TimeWheelTimer → List TimerEvent → List Firing
  | _, [] => []
  | t, .tick :: es => t.tick.1 ++ firings t.tick.2 es
  | t, .register timerTask :: es => firings (t.registerTask timerTask) es

end TimeWheelTimer

/-- The ticks behind the registration that are to run a task of seconds: the tick
`s + 1`, and then one every `s` ticks for each of its cycles. -/
def TimerTask.RunsIn (task : TimerTask) (k : Nat) : Prop :=
  ∃ j : Nat, k = (j + 1) * task.mSeconds + 1 ∧
    (0 < task.mCycleNumber → ((j + 1 : Nat) : Int) ≤ task.mCycleNumber)

namespace TimeWheelTimer

/-- The function `f` of a task registered now runs in these ticks, whatever else is
registered. A task of a number of cycles runs that often, and its id is then unknown. -/
structure Periodic (t : TimeWheelTimer) (task : TimerTask) (f : Callback) : Prop where
  runs : ∀ es : List TimerEvent, (∀ e ∈ es, e.Other task.mID) → task.RunsIn (ticks es + 1) →
    (final step (t.registerTask task) es).tick.1.filter (·.id = task.mID) = [⟨task.mID, f⟩]
  rests : ∀ es : List TimerEvent, (∀ e ∈ es, e.Other task.mID) → ¬ task.RunsIn (ticks es + 1) →
    (final step (t.registerTask task) es).tick.1.filter (·.id = task.mID) = []
  ends : ∀ es : List TimerEvent, (∀ e ∈ es, e.Other task.mID) →
    ∀ n : Nat, task.mCycleNumber = n → n * task.mSeconds + 1 ≤ ticks es →
      (firings (t.registerTask task) es).filter (·.id = task.mID) =
          List.replicate n ⟨task.mID, f⟩ ∧
        (final step (t.registerTask task) es).mRegisteredTasks task.mID = none

-- ---------------------------------------------------------------------------
-- A node on the second wheel
-- ---------------------------------------------------------------------------

section

variable {t : TimeWheelTimer} {id : String} {f : Callback} {period p : Nat} {a : Alarm}
  {n : TimerNode} {task : TimerTask}

/-- A timer whose one node is on the second wheel, with the time and the cycles of an
alarm. There is an entry to come back to, unless this is the last cycle. -/
structure Waits (t : TimeWheelTimer) (id : String) (f : Callback) (period : Nat) (a : Alarm)
    (p : Nat) (n : TimerNode) : Prop where
  alone : Alone t p n
  slot_lt : p < 60
  due : t.due p n = a.left
  node_id : n.getId = id
  node_task : n.mTimerTask.mTask = some f
  node_cycle : n.getCycNum = a.cycles
  cycles_ne : a.cycles ≠ 0
  registered : a.cycles ≠ 1 → ∃ task, t.mRegisteredTasks id = some task ∧
    task.mCycleNumber = a.cycles ∧ task.mTask = some f ∧ task.mHours = 0 ∧ task.mMinutes = 0 ∧
      task.mSeconds = period

/-- A task of seconds that enters the empty wheels. -/
theorem waits_enter (hVacant : Vacant t) (hClock : InClock t) (hHours : task.mHours = 0)
    (hMinutes : task.mMinutes = 0) (hSeconds : 0 < task.mSeconds)
    (hCycle : task.mCycleNumber ≠ 0) (hTask : task.mTask = some f)
    (hReg : task.mCycleNumber ≠ 1 → t.mRegisteredTasks task.mID = some task) :
    Waits (t.addTimerNodeFor task) task.mID f task.mSeconds ⟨task.mCycleNumber, task.mSeconds⟩
      (t.slotFor task) (t.nodeFor task) where
  alone := by
    rw [addTimerNodeFor_eq (by rw [TimerTask.delay]; omega)]
    exact hVacant.push _ _
  slot_lt := by
    rw [slotFor, if_neg (not_not.mpr hHours), if_neg (not_not.mpr hMinutes)]
    omega
  due := by
    rw [addTimerNodeFor_eq (by rw [TimerTask.delay]; omega)]
    exact firstDue_second hHours hMinutes hClock
  node_id := rfl
  node_task := hTask
  node_cycle := rfl
  cycles_ne := hCycle
  registered hOnce := by
    rw [addTimerNodeFor_registered]
    exact ⟨task, hReg hOnce, rfl, hTask, hHours, hMinutes, rfl⟩

/-- The minute and hour blocks do not touch the second wheel. -/
theorem restFate_second {s m hr : Nat} (hp : p < 60) : restFate s m hr p n = some (p, n) := by
  unfold restFate minuteFate
  split
  · rw [if_neg (by omega), Option.bind_some, hourFate_second n (by omega), ite_self]
  · rfl

theorem tickMinute_second (h : Alone t p n) (hp : p < 60) :
    t.tickMinute.1 = [] ∧ Alone t.tickMinute.2 p n := by
  have hHolds := tickMinute_fate h
  rw [restFate_second hp] at hHolds
  exact hHolds

/-- A node on the second wheel that is not due comes one tick closer. -/
theorem Waits.on_way {cycles : Int} {left : Nat} (hClock : InClock t)
    (h : Waits t id f period ⟨cycles, left + 1⟩ p n) :
    t.tick.1 = [] ∧ Waits t.tick.2 id f period ⟨cycles, left⟩ p n := by
  have hSlot : p ≠ t.mSeconds := by
    -- the slot of the present second is due
    intro hEq
    have hDue := h.due
    rw [due_second n h.slot_lt] at hDue
    dsimp only at hDue
    omega
  have hp : p < 144 := Nat.lt_trans h.slot_lt (by decide)
  have hTick := tick_alone h.alone hSlot
  have hStep := due_step hClock (tick_clock hClock) hp hSlot n
  rw [restFate_second h.slot_lt] at hTick hStep
  have hEmpty : t.mTimeWheel t.mSeconds = [] := h.alone.other (Ne.symm hSlot)
  have hEntries : t.tick.2.mRegisteredTasks = t.mRegisteredTasks := by
    rw [tick_eq, tickMinute_registered, afterSecond, checkSecondWheel_empty hEmpty]
    rfl
  refine ⟨hTick.1, hTick.2, h.slot_lt, ?_, h.node_id, h.node_task, h.node_cycle, h.cycles_ne, ?_⟩
  · have hDue := h.due
    dsimp only at hDue hStep ⊢
    omega
  · rw [hEntries]
    exact h.registered

theorem Waits.slot_eq (hClock : InClock t) {cycles : Int}
    (h : Waits t id f period ⟨cycles, 0⟩ p n) : p = t.mSeconds := by
  have hDue := h.due
  have hSlot := h.slot_lt
  obtain ⟨hS, -⟩ := hClock
  rw [due_second n hSlot] at hDue
  dsimp only at hDue
  omega

theorem Waits.run_eq (h : Waits t id f period a p n) : n.run = [⟨id, f⟩] := by
  unfold TimerNode.run
  rw [h.node_task, h.node_id]

/-- A due node runs. In its last cycle its id goes with it. -/
theorem Waits.last (hClock : InClock t) (h : Waits t id f period ⟨1, 0⟩ p n) :
    t.tick.1 = [⟨id, f⟩] ∧ Vacant t.tick.2 ∧ t.tick.2.mRegisteredTasks id = none := by
  obtain rfl := h.slot_eq hClock
  obtain ⟨hRuns, hState⟩ := tick_expire h.alone
  have hErase : (t.clear t.mSeconds).expireNode n = (t.clear t.mSeconds).eraseTimerTask id := by
    unfold expireNode
    dsimp only
    rw [if_pos h.node_cycle, h.node_id]
  have hVacant : Vacant (((t.clear t.mSeconds).expireNode n).setClock (t.mSeconds + 1)
      t.mMinutes t.mHours) := by
    rw [hErase]
    exact h.alone.clear
  obtain ⟨hNone, hStill⟩ := hVacant.tickMinute
  refine ⟨?_, ?_, ?_⟩
  · rw [hRuns, hNone, h.run_eq]
    rfl
  · rw [hState]
    exact hStill
  · rw [hState, tickMinute_registered, hErase]
    exact Function.update_self ..

/-- The period of a task that comes back fits in a minute. -/
theorem Waits.period_lt (h : Waits t id f period a p n) (hLast : a.cycles ≠ 1) : period < 60 := by
  obtain ⟨task, -, -, -, -, -, rfl⟩ := h.registered hLast
  exact task.seconds_lt

/-- A due node with cycles left leaves its successor in the wheels, for the whole period. -/
theorem Waits.successor {cycles : Int} (hClock : InClock t) (hPeriod : 0 < period)
    (hLast : cycles ≠ 1) (h : Waits t id f period ⟨cycles, 0⟩ t.mSeconds n) :
    ∃ p' n', Waits ((t.clear t.mSeconds).expireNode n) id f period
      ⟨if cycles > 0 then cycles - 1 else cycles, period⟩ p' n' := by
  obtain ⟨task, hReg, hCycle, hTask, hHours, hMinutes, rfl⟩ := h.registered hLast
  have hZero := h.cycles_ne
  have hNode := h.node_cycle
  dsimp only at hCycle hZero hNode
  have hMore : n.getCycNum > 1 ∨ n.getCycNum < 0 := by omega
  have hOnce : n.getCycNum ≠ 1 := by omega
  have hId : task.countDown.mID = id :=
    (TimerTask.countDown_mID task).trans (t.registered_id id task hReg)
  have hCount : task.countDown.mCycleNumber = if cycles > 0 then cycles - 1 else cycles := by
    unfold TimerTask.countDown
    rw [hCycle]
    split
    · rfl
    · exact hCycle
  -- the entry counts down and gets the next node
  have hRepeat : (t.clear t.mSeconds).expireNode n =
      ((t.clear t.mSeconds).setTask task.countDown).addTimerNodeFor task.countDown := by
    have hEntry : (t.clear t.mSeconds).mRegisteredTasks id = some task := hReg
    unfold expireNode repeatTimerTask
    dsimp only
    rw [if_neg hOnce, if_pos hMore, h.node_id, hEntry]
  have hVacant : Vacant ((t.clear t.mSeconds).setTask task.countDown) := h.alone.clear
  have hNext := waits_enter (f := f) hVacant (hClock : InClock _)
    (by rw [TimerTask.countDown_mHours, hHours])
    (by rw [TimerTask.countDown_mMinutes, hMinutes]) (by rwa [TimerTask.countDown_mSeconds])
    (by
      rw [hCount]
      exact Alarm.cycles_rest_ne hZero hLast)
    (by rw [TimerTask.countDown_mTask, hTask]) fun _ => Function.update_self ..
  rw [hId, hCount, TimerTask.countDown_mSeconds] at hNext
  exact ⟨_, _, hRepeat ▸ hNext⟩

/-- A due node with cycles left runs, and its successor waits for the whole period. -/
theorem Waits.again {cycles : Int} (hClock : InClock t) (hPeriod : 0 < period)
    (hLast : cycles ≠ 1) (h : Waits t id f period ⟨cycles, 0⟩ p n) :
    t.tick.1 = [⟨id, f⟩] ∧ ∃ p' n', Waits t.tick.2 id f period
      ⟨if cycles > 0 then cycles - 1 else cycles, period - 1⟩ p' n' := by
  obtain rfl := h.slot_eq hClock
  have hLt : period < 60 := h.period_lt hLast
  obtain ⟨p', n', hNext⟩ := h.successor hClock hPeriod hLast
  obtain ⟨hRuns, hState⟩ := tick_expire h.alone
  obtain ⟨hNone, hAlone⟩ := tickMinute_second
    (hNext.alone.setClock (t.mSeconds + 1) t.mMinutes t.mHours) hNext.slot_lt
  refine ⟨?_, p', n', ?_, hNext.slot_lt, ?_, hNext.node_id, hNext.node_task, hNext.node_cycle,
    hNext.cycles_ne, ?_⟩
  · rw [hRuns, hNone, h.run_eq]
    rfl
  · rw [hState]
    exact hAlone
  · -- the whole period from the second just checked, so one tick less from the next
    have hDue := hNext.due
    have hSame : ((t.clear t.mSeconds).expireNode n).mSeconds = t.mSeconds :=
      (expireNode_clock (t.clear t.mSeconds) n).1
    have hSlot := hNext.slot_lt
    have hNow := tick_clock hClock
    obtain ⟨hS, -⟩ := hClock
    rw [due_second n' hSlot, hSame] at hDue
    rw [due_second n' hSlot]
    dsimp only at hDue ⊢
    cases hNow <;> omega
  · rw [hState, tickMinute_registered]
    exact hNext.registered

-- ---------------------------------------------------------------------------
-- Alarms
-- ---------------------------------------------------------------------------

/-- The timer does what the alarm does. An alarm that is gone has left nothing behind. -/
def Follows (t : TimeWheelTimer) (id : String) (f : Callback) (period : Nat) :
    Option Alarm → Prop
  | none => Vacant t ∧ t.mRegisteredTasks id = none
  | some a => ∃ p n, Waits t id f period a p n

/-- What a tick is to run. -/
def ringing (id : String) (f : Callback) (a : Option Alarm) : List Firing :=
  List.replicate (if Alarm.rings a then 1 else 0) ⟨id, f⟩

variable {alarm : Option Alarm}

theorem Follows.tick (hClock : InClock t) (hPeriod : 0 < period)
    (h : Follows t id f period alarm) :
    t.tick.1 = ringing id f alarm ∧ Follows t.tick.2 id f period (Alarm.tick period alarm) := by
  match alarm with
  | none =>
    obtain ⟨hVacant, hReg⟩ := h
    exact ⟨hVacant.tick.1, hVacant.tick.2, tick_unregistered hReg⟩
  | some ⟨cycles, left + 1⟩ =>
    obtain ⟨p, n, hWaits⟩ := h
    obtain ⟨hRuns, hNext⟩ := hWaits.on_way hClock
    exact ⟨hRuns, p, n, hNext⟩
  | some ⟨cycles, 0⟩ =>
    obtain ⟨p, n, hWaits⟩ := h
    by_cases hLast : cycles = 1
    · subst hLast
      obtain ⟨hRuns, hVacant, hReg⟩ := hWaits.last hClock
      exact ⟨hRuns, hVacant, hReg⟩
    · obtain ⟨hRuns, hNext⟩ := hWaits.again hClock hPeriod hLast
      refine ⟨hRuns, ?_⟩
      rw [Alarm.tick, if_neg hLast]
      exact hNext

/-- **A tick** of the whole timer. -/
theorem tick_follows (hClock : InClock t) (hPeriod : 0 < period)
    (h : Follows (t.only (View.ofId id)) id f period alarm) :
    t.tick.1.filter (·.id = id) = ringing id f alarm ∧
      Follows (t.tick.2.only (View.ofId id)) id f period (Alarm.tick period alarm) := by
  obtain ⟨hState, hRuns, -⟩ := tick_only (closed_ofId id t)
  obtain ⟨hRing, hNext⟩ := Follows.tick (t := t.only (View.ofId id)) hClock hPeriod h
  rw [hState]
  exact ⟨hRuns.trans hRing, hNext⟩

/-- **A run** with any other tasks. -/
theorem run_follows {es : List TimerEvent} (hOther : ∀ e ∈ es, e.Other id) (hClock : InClock t)
    (hPeriod : 0 < period) (h : Follows (t.only (View.ofId id)) id f period alarm) :
    Follows ((final step t es).only (View.ofId id)) id f period
        (Alarm.after period (ticks es) alarm) ∧
      (firings t es).filter (·.id = id) =
        List.replicate (Alarm.ringCount period (ticks es) alarm) ⟨id, f⟩ := by
  induction es generalizing t alarm with
  | nil => exact ⟨h, rfl⟩
  | cons e es ih =>
    have hRest : ∀ e ∈ es, e.Other id := fun e he => hOther e (List.mem_cons_of_mem _ he)
    have hClock' := step_inClock t e hClock
    cases e with
    | tick =>
      obtain ⟨hRuns, hNext⟩ := tick_follows hClock hPeriod h
      obtain ⟨hFollows, hFirings⟩ := ih hRest hClock' hNext
      rw [ticks_tick, Alarm.after, Alarm.ringCount]
      refine ⟨hFollows, ?_⟩
      rw [firings, List.filter_append, hRuns, ringing, ← List.replicate_append_replicate]
      exact congrArg _ hFirings
    | register task =>
      have hId : task.mID ≠ id := hOther _ List.mem_cons_self
      rw [ticks_register]
      refine ih hRest hClock' ?_
      show Follows ((t.registerTask task).only _) id f period alarm
      rw [registerTask_only_id hId]
      exact h

-- ---------------------------------------------------------------------------
-- The registration
-- ---------------------------------------------------------------------------

theorem run_unregistered {es : List TimerEvent} (hOther : ∀ e ∈ es, e.Other id)
    (h : t.mRegisteredTasks id = none) : (final step t es).mRegisteredTasks id = none := by
  induction es generalizing t with
  | nil => exact h
  | cons e es ih =>
    refine ih (fun e he => hOther e (List.mem_cons_of_mem _ he)) ?_
    cases e with
    | tick => exact tick_unregistered h
    | register task => exact (registerTask_registered_other (hOther _ List.mem_cons_self)).trans h

/-- A task of seconds under a new id. -/
theorem registerTask_follows (hClock : InClock t) (hReg : t.mRegisteredTasks task.mID = none)
    (hVacant : Vacant (t.only (View.ofId task.mID))) (hHours : task.mHours = 0)
    (hMinutes : task.mMinutes = 0) (hSeconds : 0 < task.mSeconds)
    (hCycle : task.mCycleNumber ≠ 0) (hTask : task.mTask = some f) :
    Follows ((t.registerTask task).only (View.ofId task.mID)) task.mID f task.mSeconds
      (some ⟨task.mCycleNumber, task.mSeconds⟩) := by
  have hSees : (View.ofId task.mID).sees task = true := decide_eq_true rfl
  have hKey : (View.ofId task.mID).key task.mID = true := decide_eq_true rfl
  by_cases hOnce : task.mCycleNumber = 1
  · -- a one-shot task needs no entry
    have hAdd : t.registerTask task = t.addTimerNodeFor task := by
      simp [registerTask, hOnce]
    rw [hAdd, addTimerNodeFor_only hSees]
    exact ⟨_, _, waits_enter hVacant (hClock : InClock (t.only _)) hHours hMinutes hSeconds hCycle
      hTask fun hMany => absurd hOnce hMany⟩
  · have hMany : task.mCycleNumber < 0 ∨ task.mCycleNumber > 1 := by omega
    have hAdd : t.registerTask task = (t.setTask task).addTimerNodeFor task := by
      unfold registerTask insertTask
      dsimp only
      rw [if_neg hCycle, if_pos hMany, hReg]
    rw [hAdd, addTimerNodeFor_only hSees, setTask_only hKey]
    exact ⟨_, _, waits_enter (t := (t.only _).setTask task) hVacant hClock hHours hMinutes hSeconds
      hCycle hTask fun _ => Function.update_self ..⟩

/-- The alarm rings where the task is to run. -/
theorem rings_iff_runsIn (hSeconds : 0 < task.mSeconds) (hCycle : task.mCycleNumber ≠ 0) (k : Nat) :
    Alarm.rings (Alarm.after task.mSeconds k (some ⟨task.mCycleNumber, task.mSeconds⟩)) = true ↔
      task.RunsIn (k + 1) := by
  refine (Alarm.rings_after_iff hSeconds k ⟨task.mCycleNumber, task.mSeconds⟩ hCycle).trans
    (exists_congr fun j => and_congr ?_ (forall_congr' fun _ => ?_))
  · rw [Nat.succ_mul]
    dsimp only
    omega
  · dsimp only
    omega

end

/-- **Periodic tasks.** In every reachable timer that does not know its id, a task of `s`
seconds runs for the first time in the tick `s + 1` behind its registration and then
every `s` ticks, for each of its cycles or for ever. -/
theorem periodic (es : List TimerEvent) (task : TimerTask) (f : Callback)
    (hOwn : ∀ e ∈ es, e.Other task.mID) (hHours : task.mHours = 0) (hMinutes : task.mMinutes = 0)
    (hSeconds : 0 < task.mSeconds) (hCycle : task.mCycleNumber ≠ 0)
    (hTask : task.mTask = some f) : (final step create es).Periodic task f := by
  have hClock : InClock (final step create es) := final_inClock es
  have hVacant : Vacant ((final step create es).only (View.ofId task.mID)) :=
    run_vacant (fun e he => unseen_ofId (hOwn e he)) (closed_ofId _ _) fun _ => rfl
  have hFollows := registerTask_follows hClock (run_unregistered hOwn rfl) hVacant hHours hMinutes
    hSeconds hCycle hTask
  have hClock' : InClock ((final step create es).registerTask task) :=
    step_inClock _ (.register task) hClock
  refine ⟨?_, ?_, ?_⟩
  · intro es' hOther hRuns
    obtain ⟨hAfter, -⟩ := run_follows hOther hClock' hSeconds hFollows
    have hRings := (rings_iff_runsIn hSeconds hCycle (ticks es')).mpr hRuns
    rw [(tick_follows (final_of_step step_inClock hClock') hSeconds hAfter).1, ringing, hRings]
    rfl
  · intro es' hOther hRests
    obtain ⟨hAfter, -⟩ := run_follows hOther hClock' hSeconds hFollows
    have hQuiet := (rings_iff_runsIn hSeconds hCycle (ticks es')).not.mpr hRests
    rw [(tick_follows (final_of_step step_inClock hClock') hSeconds hAfter).1, ringing,
      if_neg hQuiet]
    rfl
  · intro es' hOther n hn hTicks
    obtain ⟨hAfter, hFirings⟩ := run_follows hOther hClock' hSeconds hFollows
    cases n with
    | zero => exact absurd hn hCycle
    | succ n =>
      rw [Nat.succ_mul] at hTicks
      have hNumber : task.mCycleNumber = (n : Int) + 1 := hn
      rw [hNumber] at hAfter hFirings
      obtain ⟨hGone, hCount⟩ := Alarm.after_done hSeconds n task.mSeconds
        (show task.mSeconds + n * task.mSeconds < ticks es' by omega)
      rw [hGone] at hAfter
      rw [hCount] at hFirings
      have hKey : (View.ofId task.mID).key task.mID = true := decide_eq_true rfl
      exact ⟨hFirings, (only_registered hKey).symm.trans hAfter.2⟩

/-- A task of 5 seconds and 3 cycles, next to another one. -/
theorem periodic_three :
    (final step create [.register (TimerTask.make 1 0 0 (-1) "other" (some 1)), .tick]).Periodic
      (TimerTask.make 0 0 5 3 "t" (some 7)) 7 :=
  periodic _ _ 7 (by simp [TimerEvent.Other, TimerTask.make]) rfl rfl (by decide) (by decide) rfl

end TimeWheelTimer

end WarringServer.Utility
