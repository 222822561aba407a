import WarringServer.Utility.TimerDue

/-!
# Repeating tasks

A task that repeats stays registered, and each of its nodes is to put the next one into
the wheels when it runs. Only the second wheel does so (`expireNode`): a node that runs
from the minute or hour wheel, because the second of its time is 0, has no successor,
and its task stays registered without a node.

The nodes of a task have the second of its registration plus multiples of its own
seconds. `PhaseSafe` says that none of them is 0, or that the task has seconds only and
does not leave the second wheel.

* `Tracked` — the invariant of one registered task and its node, kept by a tick
  (`tick_tracked`);
* `repeating_kept` — in a run of safe registrations every registered task has its node,
  and one without a number of cycles keeps running.
-/

namespace WarringServer.Utility

open Run

-- ---------------------------------------------------------------------------
-- What a run is to keep
-- ---------------------------------------------------------------------------

/-- The tasks that are registered by events. -/
def registrations : List TimerEvent → List TimerTask
  | [] => []
  | .tick :: es => registrations es
  | .register task :: es => task :: registrations es

/-- No node has the second 0, of the nodes of a task from second `second` on. -/
def TimerTask.SafeFrom (task : TimerTask) (second : Nat) : Prop :=
  ∀ k : Nat, (0 < task.mCycleNumber → k < task.mCycleNumber) →
    (second + k * task.mSeconds) % 60 ≠ 0

namespace TimeWheelTimer

/-- A task registered now keeps its nodes. -/
def PhaseSafe (t : TimeWheelTimer) : TimerEvent → Prop
  | .tick => True
  | .register task => task.mCycleNumber = 0 ∨ task.mCycleNumber = 1 ∨
      (task.mHours = 0 ∧ task.mMinutes = 0) ∨ task.SafeFrom (t.mSeconds + task.mSeconds)

/-- The nodes of an id in the 144 slots. -/
def nodesOf (t : TimeWheelTimer) (id : String) : List TimerNode :=
  ((List.range 144).flatMap t.mTimeWheel).filter (·.getId = id)

/-- However far a run has come, the function of the task runs again after a number of
ticks, whatever else is registered. -/
def KeepsRunning (t : TimeWheelTimer) (task : TimerTask) : Prop :=
  ∀ f, task.mTask = some f → ∀ es : List TimerEvent, (∀ e ∈ es, e.Other task.mID) →
    ∃ d, ∀ es' : List TimerEvent, (∀ e ∈ es', e.Other task.mID) → ticks es' = d →
      ⟨task.mID, f⟩ ∈ (final step t (es ++ es')).tick.1

/-- No registered task is lost from the wheels. -/
def Kept (t : TimeWheelTimer) : Prop :=
  ∀ id task, t.mRegisteredTasks id = some task →
    (t.nodesOf id).length = 1 ∧ (task.mCycleNumber < 0 → t.KeepsRunning task)

-- ---------------------------------------------------------------------------
-- Registered tasks
-- ---------------------------------------------------------------------------

section

variable {t : TimeWheelTimer}

theorem addTimerNodeFor_registered (t : TimeWheelTimer) (task : TimerTask) :
    (t.addTimerNodeFor task).mRegisteredTasks = t.mRegisteredTasks := by
  unfold addTimerNodeFor
  dsimp only
  split
  · rfl
  · split
    · rfl
    · split <;> rfl

theorem cascadeMinute_registered (t : TimeWheelTimer) (node : TimerNode) :
    (t.cascadeMinute node).mRegisteredTasks = t.mRegisteredTasks := by
  unfold cascadeMinute
  split <;> rfl

theorem cascadeHour_registered (p : Nat) (t : TimeWheelTimer) (node : TimerNode) :
    (t.cascadeHour p node).mRegisteredTasks = t.mRegisteredTasks := by
  unfold cascadeHour
  split
  · split
    · rfl
    · split <;> rfl
  · rfl

theorem foldl_registered {f : TimeWheelTimer → TimerNode → TimeWheelTimer}
    (hf : ∀ t node, (f t node).mRegisteredTasks = t.mRegisteredTasks) (nodes : List TimerNode)
    (t : TimeWheelTimer) : (nodes.foldl f t).mRegisteredTasks = t.mRegisteredTasks := by
  induction nodes generalizing t with
  | nil => rfl
  | cons node nodes ih => rw [List.foldl_cons, ih, hf]

/-- Only the second wheel changes what is registered. -/
theorem tickMinute_registered (t : TimeWheelTimer) :
    t.tickMinute.2.mRegisteredTasks = t.mRegisteredTasks := by
  have hHour : ∀ u : TimeWheelTimer, u.tickHour.2.mRegisteredTasks = u.mRegisteredTasks := by
    intro u
    unfold tickHour
    split
    · exact foldl_registered (cascadeHour_registered _) _ _
    · rfl
  unfold tickMinute
  split
  · exact (hHour _).trans (foldl_registered cascadeMinute_registered _ _)
  · rfl

theorem expireNode_unregistered {id : String} {t : TimeWheelTimer} (node : TimerNode)
    (h : t.mRegisteredTasks id = none) : (t.expireNode node).mRegisteredTasks id = none := by
  unfold expireNode
  dsimp only
  split
  · by_cases hKey : id = node.getId
    · rw [hKey]
      exact Function.update_self ..
    · rw [← h]
      exact Function.update_of_ne hKey ..
  · split
    · unfold repeatTimerTask
      split
      · rename_i task hTask
        -- the task that comes back has an entry, and `id` has none
        have hKey : id ≠ task.countDown.mID := by
          rw [TimerTask.countDown_mID, t.registered_id _ _ hTask]
          intro hEq
          rw [← hEq, h] at hTask
          cases hTask
        rw [addTimerNodeFor_registered, ← h]
        exact Function.update_of_ne hKey ..
      · exact h
    · exact h

/-- A tick registers nothing. -/
theorem tick_unregistered {id : String} (h : t.mRegisteredTasks id = none) :
    t.tick.2.mRegisteredTasks id = none := by
  -- one node of the slot after the other
  have hFold : ∀ (nodes : List TimerNode) (u : TimeWheelTimer), u.mRegisteredTasks id = none →
      (nodes.foldl expireNode u).mRegisteredTasks id = none := by
    intro nodes
    induction nodes with
    | nil => exact fun _ hu => hu
    | cons node nodes ih => exact fun u hu => ih _ (expireNode_unregistered node hu)
  rw [tick_eq, tickMinute_registered]
  exact hFold _ (t.clear t.mSeconds) h

end

-- ---------------------------------------------------------------------------
-- A registered task and its node
-- ---------------------------------------------------------------------------

/-- A timer with one registered task, whose node is alone in the wheels and has a
successor when it runs. -/
structure Tracked (t : TimeWheelTimer) (id : String) (task : TimerTask) (p : Nat)
    (n : TimerNode) : Prop where
  registered : t.mRegisteredTasks id = some task
  alone : Alone t p n
  slot_lt : p < 144
  node_cycle : n.getCycNum = task.mCycleNumber
  node_id : n.getId = id
  node_task : n.mTimerTask.mTask = task.mTask
  delay_pos : 0 < task.delay
  cycle_ne : task.mCycleNumber ≠ 0
  second_slot : p < 60 → p = n.getSeconds
  phase : (task.mHours = 0 ∧ task.mMinutes = 0 ∧ p < 60) ∨ task.SafeFrom n.getSeconds

section

variable {t : TimeWheelTimer} {id : String} {task : TimerTask} {p : Nat} {n : TimerNode}

theorem safeFrom_mod {second : Nat} : task.SafeFrom (second % 60) ↔ task.SafeFrom second := by
  unfold TimerTask.SafeFrom
  simp only [Nat.mod_add_mod]

/-- The first of the nodes has not the second 0. -/
theorem safeFrom_pos {second : Nat} (h : task.SafeFrom second) : second % 60 ≠ 0 := by
  have hFirst := h 0 (by omega)
  rwa [Nat.zero_mul, Nat.add_zero] at hFirst

/-- The nodes behind the first are those of the task counted down. -/
theorem safeFrom_countDown {second : Nat} (hCycle : task.mCycleNumber ≠ 1)
    (h : task.SafeFrom second) : task.countDown.SafeFrom (second + task.mSeconds) := by
  intro k hk
  -- node `k` of the rest is node `k + 1` of the whole
  have hNext : 0 < task.mCycleNumber → ((k + 1 : Nat) : Int) < task.mCycleNumber := by
    intro hPos
    have hCount : task.countDown.mCycleNumber = task.mCycleNumber - 1 := by
      unfold TimerTask.countDown
      rw [if_pos hPos]
    have hLt := hk (by omega)
    omega
  have hSafe := h (k + 1) hNext
  have hEq : second + (k + 1) * task.mSeconds =
      second + task.mSeconds + k * task.countDown.mSeconds := by
    rw [TimerTask.countDown_mSeconds, Nat.succ_mul]
    omega
  rwa [hEq] at hSafe

/-- A task that enters the empty wheels at a safe second. -/
theorem tracked_enter (hVacant : Vacant t) (hReg : t.mRegisteredTasks id = some task)
    (hDelay : 0 < task.delay) (hCycle : task.mCycleNumber ≠ 0)
    (hPhase : (task.mHours = 0 ∧ task.mMinutes = 0) ∨
      task.SafeFrom (t.mSeconds + task.mSeconds)) :
    Tracked (t.addTimerNodeFor task) id task (t.slotFor task) (t.nodeFor task) where
  registered := by rw [addTimerNodeFor_registered, hReg]
  alone := by
    rw [addTimerNodeFor_eq hDelay]
    exact hVacant.push _ _
  slot_lt := slotFor_lt task
  node_cycle := rfl
  node_id := t.registered_id id task hReg
  node_task := rfl
  delay_pos := hDelay
  cycle_ne := hCycle
  second_slot := by
    -- a task of seconds goes to the slot of its second
    intro hLt
    show t.slotFor task = (task.mSeconds + t.mSeconds) % 60
    unfold slotFor at hLt ⊢
    split at hLt
    · omega
    · split at hLt
      · omega
      · rw [if_neg ‹_›, if_neg ‹_›]
  phase := by
    rcases hPhase with ⟨hHours, hMinutes⟩ | hSafe
    · -- it starts on the second wheel
      refine .inl ⟨hHours, hMinutes, ?_⟩
      rw [slotFor, if_neg (not_not.mpr hHours), if_neg (not_not.mpr hMinutes)]
      omega
    · refine .inr ?_
      show task.SafeFrom ((task.mSeconds + t.mSeconds) % 60)
      rwa [safeFrom_mod, Nat.add_comm]

/-- A node with seconds to go leaves the hour wheel for another. -/
theorem hourFate_some (hr : Nat) (hSlot : p < 144) (hp : ¬p < 60) (hSeconds : 0 < n.getSeconds) :
    ∃ p' n', hourFate hr p n = some (p', n') ∧ p' < 144 ∧ (p' < 60 → p' = n.getSeconds) := by
  have hLt : n.getSeconds < 60 := n.mTimerTask.seconds_lt
  have hLt' : n.getMinutes < 60 := n.mTimerTask.minutes_lt
  unfold hourFate
  by_cases hHour : p = hr % 24 + 60 + 60
  · rw [if_pos hHour]
    by_cases hRound : n.mRound = 0
    · rw [if_pos hRound]
      by_cases hMinutes : n.getMinutes > 0
      · rw [if_pos hMinutes]
        exact ⟨_, _, rfl, by omega, fun h => by omega⟩
      · rw [if_neg hMinutes, if_pos hSeconds]
        exact ⟨_, _, rfl, by omega, fun _ => rfl⟩
    · rw [if_neg hRound]
      exact ⟨_, _, rfl, hSlot, fun h => absurd h hp⟩
  · rw [if_neg hHour]
    exact ⟨_, _, rfl, hSlot, fun h => absurd h hp⟩

/-- A tracked node does not leave the wheels from the minute or hour wheel: it stays in
its second slot, or has a second to go to. -/
theorem Tracked.restFate (h : Tracked t id task p n) (s m hr : Nat) :
    ∃ p' n', TimeWheelTimer.restFate s m hr p n = some (p', n') ∧ p' < 144 ∧
      (p < 60 → p' < 60) ∧ (p' < 60 → p' = n.getSeconds) := by
  unfold TimeWheelTimer.restFate minuteFate
  by_cases hp : p < 60
  · -- neither block touches the second wheel
    refine ⟨p, n, ?_, h.slot_lt, fun _ => hp, h.second_slot⟩
    split
    · rw [if_neg (by omega), Option.bind_some, hourFate_second n (by omega), ite_self]
    · rfl
  · -- outside the second wheel it is the phase that keeps the second from 0
    have hSeconds : 0 < n.getSeconds := by
      rcases h.phase with ⟨-, -, hLt⟩ | hSafe
      · exact absurd hLt hp
      · have hNe := safeFrom_pos hSafe
        omega
    have hLt : n.getSeconds < 60 := n.mTimerTask.seconds_lt
    by_cases hFull : s = 60
    · rw [if_pos hFull]
      by_cases hMinute : p = m + 60
      · rw [if_pos hMinute, if_pos hSeconds, Option.bind_some, hourFate_second _ (by omega),
          ite_self]
        exact ⟨_, _, rfl, by omega, fun hEq => absurd hEq hp, fun _ => rfl⟩
      · rw [if_neg hMinute, Option.bind_some]
        split
        · obtain ⟨p', n', hFate, hLt', hSecond⟩ := hourFate_some hr h.slot_lt hp hSeconds
          exact ⟨p', n', hFate, hLt', fun hEq => absurd hEq hp, hSecond⟩
        · exact ⟨p, n, rfl, h.slot_lt, fun hEq => absurd hEq hp, fun hEq => absurd hEq hp⟩
    · rw [if_neg hFull]
      exact ⟨p, n, rfl, h.slot_lt, fun hEq => absurd hEq hp, fun hEq => absurd hEq hp⟩

/-- The minute and hour blocks of a tick keep the track of a node. -/
theorem Tracked.tickMinute (h : Tracked t id task p n) :
    ∃ p' n', Tracked t.tickMinute.2 id task p' n' := by
  obtain ⟨p', n', hFate, hSlot, hStay, hSecond⟩ := h.restFate t.mSeconds t.mMinutes t.mHours
  have hHolds := tickMinute_fate h.alone
  rw [hFate] at hHolds
  have hTask : n'.mTimerTask = n.mTimerTask := restFate_task hFate
  have hSeconds : n'.getSeconds = n.getSeconds := by
    unfold TimerNode.getSeconds
    rw [hTask]
  refine ⟨p', n', ?_, hHolds.2, hSlot, ?_, ?_, ?_, h.delay_pos, h.cycle_ne, ?_, ?_⟩
  · rw [tickMinute_registered, h.registered]
  · rw [getCycNum_of_task hTask, h.node_cycle]
  · unfold TimerNode.getId
    rw [hTask]
    exact h.node_id
  · rw [hTask, h.node_task]
  · rw [hSeconds]
    exact hSecond
  · rcases h.phase with ⟨hHours, hMinutes, hLt⟩ | hSafe
    · exact .inl ⟨hHours, hMinutes, hStay hLt⟩
    · rw [hSeconds]
      exact .inr hSafe

theorem Tracked.setClock (h : Tracked t id task p n) (s m hr : Nat) :
    Tracked (t.setClock s m hr) id task p n :=
  ⟨h.registered, h.alone, h.slot_lt, h.node_cycle, h.node_id, h.node_task, h.delay_pos,
    h.cycle_ne, h.second_slot, h.phase⟩

/-- A tracked node that runs from the second wheel has a successor, unless it is the
last. -/
theorem Tracked.expire (h : Tracked t id task t.mSeconds n) (hCycle : task.mCycleNumber ≠ 1)
    (hClock : InClock t) :
    ∃ p' n', Tracked ((t.clear t.mSeconds).expireNode n) id task.countDown p' n' := by
  have hOnce : n.getCycNum ≠ 1 := by rw [h.node_cycle]; exact hCycle
  have hMore : n.getCycNum > 1 ∨ n.getCycNum < 0 := by
    have hZero := h.cycle_ne
    have hNode := h.node_cycle
    omega
  have hId : task.countDown.mID = id :=
    (TimerTask.countDown_mID task).trans (t.registered_id id task h.registered)
  have hReg : (t.clear t.mSeconds).mRegisteredTasks id = some task := h.registered
  -- its entry counts down and gets the next node
  have hRepeat : (t.clear t.mSeconds).expireNode n =
      ((t.clear t.mSeconds).setTask task.countDown).addTimerNodeFor task.countDown := by
    unfold expireNode repeatTimerTask
    dsimp only
    rw [if_neg hOnce, if_pos hMore, h.node_id, hReg]
  have hReg' : ((t.clear t.mSeconds).setTask task.countDown).mRegisteredTasks id =
      some task.countDown := by
    rw [← hId]
    exact Function.update_self ..
  have hCount : task.countDown.mCycleNumber ≠ 0 := by
    have hZero := h.cycle_ne
    unfold TimerTask.countDown
    split
    · show task.mCycleNumber - 1 ≠ 0
      omega
    · exact hZero
  -- it runs at the second of its time, from which the next is counted
  have hNow : t.mSeconds = n.getSeconds := h.second_slot hClock.1
  rw [hRepeat]
  refine ⟨_, _, tracked_enter h.alone.clear hReg' ?_ hCount ?_⟩
  · rw [TimerTask.countDown_delay]
    exact h.delay_pos
  · rcases h.phase with ⟨hHours, hMinutes, -⟩ | hSafe
    · refine .inl ⟨?_, ?_⟩
      · rw [TimerTask.countDown_mHours, hHours]
      · rw [TimerTask.countDown_mMinutes, hMinutes]
    · refine .inr ?_
      show task.countDown.SafeFrom (t.mSeconds + task.countDown.mSeconds)
      rw [hNow, TimerTask.countDown_mSeconds]
      exact safeFrom_countDown hCycle hSafe

/-- **A tick** keeps the track of a registered task, until its last node has run. -/
theorem tick_tracked (hClock : InClock t) (h : Tracked t id task p n) :
    (task.mCycleNumber = 1 ∧ t.tick.2.mRegisteredTasks id = none) ∨
      ∃ task' p' n', Tracked t.tick.2 id task' p' n' ∧ (task' = task ∨ task' = task.countDown) := by
  by_cases hSlot : p = t.mSeconds
  · subst hSlot
    rw [(tick_expire h.alone).2]
    by_cases hCycle : task.mCycleNumber = 1
    · refine .inl ⟨hCycle, ?_⟩
      -- the last of its cycles
      have hOnce : n.getCycNum = 1 := h.node_cycle.trans hCycle
      have hErase : (t.clear t.mSeconds).expireNode n = (t.clear t.mSeconds).eraseTimerTask id := by
        unfold expireNode
        dsimp only
        rw [if_pos hOnce, h.node_id]
      rw [tickMinute_registered, hErase]
      exact Function.update_self ..
    · obtain ⟨p₁, n₁, hNext⟩ := h.expire hCycle hClock
      obtain ⟨p', n', hAfter⟩ := (hNext.setClock (t.mSeconds + 1) t.mMinutes t.mHours).tickMinute
      exact .inr ⟨_, p', n', hAfter, .inr rfl⟩
  · -- the second wheel has nothing to run
    have hEmpty : t.mTimeWheel t.mSeconds = [] := h.alone.other (Ne.symm hSlot)
    have hAfter : t.tick.2 = (t.setClock (t.mSeconds + 1) t.mMinutes t.mHours).tickMinute.2 := by
      rw [tick_eq, afterSecond, checkSecondWheel_empty hEmpty]
    obtain ⟨p', n', hStill⟩ := (h.setClock (t.mSeconds + 1) t.mMinutes t.mHours).tickMinute
    rw [hAfter]
    exact .inr ⟨task, p', n', hStill, .inl rfl⟩

-- ---------------------------------------------------------------------------
-- From the view of an id to the timer
-- ---------------------------------------------------------------------------

theorem unseen_ofId {e : TimerEvent} (h : e.Other id) : e.Unseen (View.ofId id) := by
  cases e with
  | tick => trivial
  | register task => exact ⟨decide_eq_false h, decide_eq_false h⟩

theorem flatMap_single (p : Nat) (n : TimerNode) (k : Nat) :
    (List.range k).flatMap (fun q => if q = p then [n] else []) = if p < k then [n] else [] := by
  induction k with
  | zero => rfl
  | succ k ih =>
    rw [List.range_succ, List.flatMap_append, ih, List.flatMap_singleton]
    by_cases hLt : p < k
    · rw [if_pos hLt, if_neg (by omega), if_pos (by omega), List.append_nil]
    · rw [if_neg hLt, List.nil_append]
      by_cases hEq : k = p
      · rw [if_pos hEq, if_pos (by omega)]
      · rw [if_neg hEq, if_neg (by omega)]

/-- The node of a view of an id is the one node of the id. -/
theorem nodesOf_alone (h : Alone (t.only (View.ofId id)) p n) (hp : p < 144) :
    t.nodesOf id = [n] := by
  -- the filter of the view is that of the id
  have hWheel : (fun q => (t.mTimeWheel q).filter (·.getId = id)) =
      fun q => if q = p then [n] else [] := funext h
  rw [nodesOf, List.filter_flatMap, hWheel, flatMap_single, if_pos hp]

/-- A node that is due runs. -/
theorem tick_due_runs (hClock : InClock t) (h : Alone t p n) (hp : p < 144)
    (hDue : t.due p n = 0) : ∀ r ∈ n.run, r ∈ t.tick.1 := by
  intro r hr
  by_cases hSlot : p = t.mSeconds
  · subst hSlot
    rw [(tick_expire h).1]
    exact List.mem_append_left _ hr
  · have hTick := tick_alone h hSlot
    rw [restFate_of_due hClock hp hSlot hDue] at hTick
    rw [hTick.1]
    exact hr

theorem countDown_of_neg (hCycle : task.mCycleNumber < 0) : task.countDown = task := by
  unfold TimerTask.countDown
  rw [if_neg (by omega)]

/-- A task without a number of cycles is tracked for ever. -/
theorem run_tracked {es : List TimerEvent} (hOther : ∀ e ∈ es, e.Other id) (hClock : InClock t)
    (hCycle : task.mCycleNumber < 0) (h : Tracked (t.only (View.ofId id)) id task p n) :
    ∃ p' n', Tracked ((final step t es).only (View.ofId id)) id task p' n' := by
  induction es generalizing t p n with
  | nil => exact ⟨p, n, h⟩
  | cons e es ih =>
    have hRest : ∀ e ∈ es, e.Other id := fun e he => hOther e (List.mem_cons_of_mem _ he)
    have hClock' := step_inClock t e hClock
    cases e with
    | tick =>
      rcases tick_tracked (t := t.only (View.ofId id)) hClock h with ⟨hOnce, -⟩ |
        ⟨task', p', n', hNext, hTask'⟩
      · omega
      · -- without a number of cycles the entry stays as it is
        rw [countDown_of_neg hCycle, or_self] at hTask'
        subst hTask'
        rw [← (tick_only (closed_ofId id t)).state] at hNext
        exact ih hRest hClock' hNext
    | register task₀ =>
      obtain ⟨hTask, hKey⟩ := unseen_ofId (hOther _ List.mem_cons_self)
      have hState : (t.step (.register task₀)).only (View.ofId id) = t.only (View.ofId id) :=
        registerTask_only_other hTask hKey
      exact ih hRest hClock' (hState.symm ▸ h)

theorem Tracked.keepsRunning (h : Tracked (t.only (View.ofId id)) id task p n)
    (hClock : InClock t) (hCycle : task.mCycleNumber < 0) : t.KeepsRunning task := by
  have hId : task.mID = id := (t.only (View.ofId id)).registered_id id task h.registered
  rw [KeepsRunning, hId]
  intro f hf es hOther
  obtain ⟨p₁, n₁, h₁⟩ := run_tracked hOther hClock hCycle h
  have hClock₁ : InClock (final step t es) := final_of_step step_inClock hClock
  -- wherever its node is after `es`, the number of ticks is known
  refine ⟨(final step t es).due p₁ n₁, ?_⟩
  intro es' hOther' hTicks
  obtain ⟨p', n', hp', hTask', hAlone', hDue'⟩ :=
    run_until_due (fun e he => unseen_ofId (hOther' e he)) hClock₁ (closed_ofId id _) h₁.alone
      h₁.slot_lt (Nat.le_of_eq hTicks)
  have hClock' : InClock (final step (final step t es) es') := final_of_step step_inClock hClock₁
  have hNow : (final step (final step t es) es').due p' n' = 0 := by omega
  have hRun : ⟨id, f⟩ ∈ n'.run := by
    have hFunction : n₁.mTimerTask.mTask = some f := h₁.node_task.trans hf
    have hNode : n₁.run = [⟨n₁.getId, f⟩] := by
      unfold TimerNode.run
      rw [hFunction]
    rw [run_of_task hTask', hNode, h₁.node_id]
    exact List.mem_singleton_self _
  have hSeen := tick_due_runs (t := (final step (final step t es) es').only (View.ofId id))
    hClock' hAlone' hp' hNow _ hRun
  rw [← (tick_only (closed_ofId id _)).runs] at hSeen
  rw [final_append]
  exact List.mem_of_mem_filter hSeen

-- ---------------------------------------------------------------------------
-- Runs
-- ---------------------------------------------------------------------------

/-- Every registered task has a track. -/
def AllTracked (t : TimeWheelTimer) : Prop :=
  InClock t ∧ ∀ id task, t.mRegisteredTasks id = some task →
    ∃ p n, Tracked (t.only (View.ofId id)) id task p n

/-- The tasks still to be registered have different ids, which the timer does not know,
and delays. -/
def Admits (t : TimeWheelTimer) (es : List TimerEvent) : Prop :=
  ((registrations es).map TimerTask.mID).Nodup ∧ ∀ task ∈ registrations es,
    0 < task.delay ∧ t.mRegisteredTasks task.mID = none ∧ Vacant (t.only (View.ofId task.mID))

theorem AllTracked.kept (h : AllTracked t) : t.Kept := by
  intro id task hReg
  obtain ⟨p, n, hTracked⟩ := h.2 id task hReg
  refine ⟨?_, hTracked.keepsRunning h.1⟩
  rw [nodesOf_alone hTracked.alone hTracked.slot_lt]
  rfl

theorem registerTask_only_id {task : TimerTask} (h : task.mID ≠ id) :
    (t.registerTask task).only (View.ofId id) = t.only (View.ofId id) :=
  registerTask_only_other (v := View.ofId id) (decide_eq_false h) (decide_eq_false h)

theorem registerTask_registered_other {task : TimerTask} (h : task.mID ≠ id) :
    (t.registerTask task).mRegisteredTasks id = t.mRegisteredTasks id := by
  have hKey : (View.ofId id).key id = true := decide_eq_true rfl
  rw [← only_registered hKey, ← only_registered (t := t) hKey, registerTask_only_id h]

/-- What is still to be registered stays new to the timer. -/
theorem step_admits {e : TimerEvent} {es : List TimerEvent} (h : Admits t (e :: es)) :
    Admits (t.step e) es := by
  obtain ⟨hNodup, hNew⟩ := h
  cases e with
  | tick =>
    refine ⟨hNodup, ?_⟩
    intro task hTask
    obtain ⟨hDelay, hNone, hVacant⟩ := hNew task hTask
    refine ⟨hDelay, tick_unregistered hNone, ?_⟩
    show Vacant (t.tick.2.only _)
    rw [(tick_only (closed_ofId task.mID t)).state]
    exact hVacant.tick.2
  | register task₀ =>
    obtain ⟨hNotIn, hNodup'⟩ := List.nodup_cons.mp hNodup
    refine ⟨hNodup', ?_⟩
    intro task hTask
    obtain ⟨hDelay, hNone, hVacant⟩ := hNew task (List.mem_cons_of_mem _ hTask)
    have hNe : task₀.mID ≠ task.mID := fun hEq => hNotIn (hEq ▸ List.mem_map_of_mem hTask)
    refine ⟨hDelay, ?_, ?_⟩
    · exact (registerTask_registered_other hNe).trans hNone
    · show Vacant ((t.registerTask task₀).only _)
      rw [registerTask_only_id hNe]
      exact hVacant

/-- A tick keeps every track. -/
theorem tick_allTracked (h : AllTracked t) : AllTracked t.tick.2 := by
  refine ⟨step_inClock t .tick h.1, ?_⟩
  intro id task hReg
  have hKey : (View.ofId id).key id = true := decide_eq_true rfl
  have hViews := tick_only (closed_ofId id t)
  cases hOld : t.mRegisteredTasks id with
  | none =>
    -- a tick does not register anything
    rw [tick_unregistered hOld] at hReg
    cases hReg
  | some task₀ =>
    obtain ⟨p, n, hTracked⟩ := h.2 id task₀ hOld
    rw [hViews.state]
    rw [← only_registered hKey, hViews.state] at hReg
    rcases tick_tracked (t := t.only (View.ofId id)) h.1 hTracked with ⟨-, hNone⟩ |
      ⟨task', p', n', hNext, -⟩
    · rw [hNone] at hReg
      cases hReg
    · rw [hNext.registered, Option.some.injEq] at hReg
      subst hReg
      exact ⟨p', n', hNext⟩

/-- A safe registration of a new id has a track. -/
theorem register_tracked (hDelay : 0 < task.delay) (hNone : t.mRegisteredTasks task.mID = none)
    (hVacant : Vacant (t.only (View.ofId task.mID))) (hSafe : t.PhaseSafe (.register task))
    {task' : TimerTask}
    (hReg : (t.registerTask task).mRegisteredTasks task.mID = some task') :
    ∃ p n, Tracked ((t.registerTask task).only (View.ofId task.mID)) task.mID task' p n := by
  by_cases hZero : task.mCycleNumber = 0
  · have hErase : t.registerTask task = t.eraseTimerTask task.mID := if_pos hZero
    rw [hErase] at hReg
    have hGone : (t.eraseTimerTask task.mID).mRegisteredTasks task.mID = none :=
      Function.update_self ..
    rw [hGone] at hReg
    cases hReg
  · by_cases hOnce : task.mCycleNumber = 1
    · -- a one-shot task gets no entry, so there is none to have a track
      have hAdd : t.registerTask task = t.addTimerNodeFor task := by
        simp [registerTask, hOnce]
      rw [hAdd, addTimerNodeFor_registered, hNone] at hReg
      cases hReg
    · have hMany : task.mCycleNumber < 0 ∨ task.mCycleNumber > 1 := by omega
      have hAdd : t.registerTask task = (t.setTask task).addTimerNodeFor task := by
        unfold registerTask insertTask
        dsimp only
        rw [if_neg hZero, if_pos hMany, hNone]
      -- the id is new, so `insert` stores the task
      have hEntry : (t.setTask task).mRegisteredTasks task.mID = some task :=
        Function.update_self ..
      rw [hAdd, addTimerNodeFor_registered, hEntry, Option.some.injEq] at hReg
      subst hReg
      have hKey : (View.ofId task.mID).key task.mID = true := decide_eq_true rfl
      have hSees : (View.ofId task.mID).sees task = true := decide_eq_true rfl
      have hPhase : (task.mHours = 0 ∧ task.mMinutes = 0) ∨
          task.SafeFrom (t.mSeconds + task.mSeconds) := by
        rcases hSafe with hCycle | hCycle | hPhase
        · exact absurd hCycle hZero
        · exact absurd hCycle hOnce
        · exact hPhase
      rw [hAdd, addTimerNodeFor_only hSees]
      refine ⟨_, _, tracked_enter ?_ ?_ hDelay hZero hPhase⟩
      · rw [setTask_only hKey]
        exact hVacant
      · rw [only_registered hKey, hEntry]

theorem register_allTracked (h : AllTracked t) (hDelay : 0 < task.delay)
    (hNone : t.mRegisteredTasks task.mID = none)
    (hVacant : Vacant (t.only (View.ofId task.mID))) (hSafe : t.PhaseSafe (.register task)) :
    AllTracked (t.registerTask task) := by
  refine ⟨step_inClock t (.register task) h.1, ?_⟩
  intro id task' hReg
  by_cases hId : task.mID = id
  · subst hId
    exact register_tracked hDelay hNone hVacant hSafe hReg
  · rw [registerTask_registered_other hId] at hReg
    rw [registerTask_only_id hId]
    exact h.2 id task' hReg

end

/-- **Repeating tasks are kept** in every run of registrations with different ids and
some delay, at seconds that are safe for them. -/
theorem repeating_kept (es : List TimerEvent)
    (hDistinct : ((registrations es).map TimerTask.mID).Nodup)
    (hDelay : ∀ task ∈ registrations es, 0 < task.delay)
    (hSafe : Each step PhaseSafe create es) : Always step Kept create es := by
  have hAdmits : Admits create es :=
    ⟨hDistinct, fun task hTask => ⟨hDelay task hTask, rfl, fun _ => rfl⟩⟩
  have hStart : AllTracked create := ⟨⟨by decide, by decide⟩, fun _ _ h => nomatch h⟩
  have hAll : Always step AllTracked create es := by
    refine always_of_each Admits (fun t e es h _ _ => step_admits h) ?_ hStart hAdmits hSafe
    intro t e es hNew hTracked hStep
    cases e with
    | tick => exact tick_allTracked hTracked
    | register task =>
      obtain ⟨hDelay', hNone, hVacant⟩ := hNew.2 task List.mem_cons_self
      exact register_allTracked hTracked hDelay' hNone hVacant hStep
  exact hAll.imp fun _ => AllTracked.kept

/-- A heartbeat check of a minute, registered at second 1. -/
theorem repeating_kept_heartbeat :
    Always step Kept create
      [.tick, .register (TimerTask.make 0 1 0 (-1) "hb" (some 7)), .tick] := by
  refine repeating_kept _ (by decide) (by decide) ⟨trivial, ?_, trivial, trivial⟩
  refine .inr (.inr (.inr ?_))
  intro k _
  show (1 + 0 + k * 0) % 60 ≠ 0
  omega

/-- A heartbeat check of a minute, registered at second 0, is lost when it first runs. -/
theorem heartbeat_lost :
    ¬Always step Kept create
      (.register (TimerTask.make 0 1 0 (-1) "hb" (some 7)) :: List.replicate 60 .tick) := by
  intro hAlways
  obtain ⟨hNodes, -⟩ := hAlways.final "hb" (TimerTask.make 0 1 0 (-1) "hb" (some 7))
    (by decide +kernel)
  revert hNodes
  decide +kernel

end TimeWheelTimer

end WarringServer.Utility
