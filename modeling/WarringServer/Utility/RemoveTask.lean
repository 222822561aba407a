import WarringServer.Utility.Repeat

/-!
# Removing tasks

A task of cycle number 0 is a request to remove the task of its id. `registerTask` takes
the entry out of `mRegisteredTasks`, and that is all: the node stays in its wheel and
runs once more. Without an entry it has no successor, so that this is the last time; a
one-shot task, which has no entry in the first place, is not removed at all.

* `AtMostOne` — with different ids there is one node of an id, or none
  (`reachable_atMostOne`);
* `Silent` — what is left of an id never runs (`run_silent`);
* `removed_iff` — a removed task stays away exactly if there is no node of it that
  has something to run.
-/

namespace WarringServer.Utility

open Run

/-- An event does not register a task under the id. It may remove one. -/
def TimerEvent.NoTask (id : String) : TimerEvent → Prop
  | .tick => True
  | .register timerTask => timerTask.mID = id → timerTask.mCycleNumber = 0

/-- The ids under which tasks are registered, without the requests to remove one. -/
def taskIDs (es : List TimerEvent) : List String :=
  ((registrations es).filter (·.mCycleNumber ≠ 0)).map TimerTask.mID

namespace TimeWheelTimer

/-- Behind the request `remove` no tick runs a task of its id, however the run goes on. -/
def StaysRemoved (t : TimeWheelTimer) (remove : TimerTask) : Prop :=
  ∀ es : List TimerEvent, (∀ e ∈ es, e.NoTask remove.mID) →
    ∀ r ∈ (final step (t.registerTask remove) es).tick.1, r.id ≠ remove.mID

section

variable {t : TimeWheelTimer} {id : String} {task : TimerTask} {p : Nat} {n : TimerNode}

-- ---------------------------------------------------------------------------
-- One node of an id
-- ---------------------------------------------------------------------------

/-- The timer holds one node, or none. -/
def AtMostOne (t : TimeWheelTimer) : Prop := Vacant t ∨ ∃ p n, p < 144 ∧ Alone t p n

theorem minuteFate_lt {m : Nat} {place : Nat × TimerNode} (hp : p < 144)
    (h : minuteFate m p n = some place) : place.1 < 144 := by
  have hLt : n.getSeconds < 60 := n.mTimerTask.seconds_lt
  unfold minuteFate at h
  split at h
  · split at h
    · rw [← Option.some.inj h]
      exact Nat.lt_trans hLt (by decide)
    · cases h
  · rw [← Option.some.inj h]
    exact hp

theorem hourFate_lt {hr : Nat} {place : Nat × TimerNode} (hp : p < 144)
    (h : hourFate hr p n = some place) : place.1 < 144 := by
  have hLt : n.getSeconds < 60 := n.mTimerTask.seconds_lt
  have hLt' : n.getMinutes < 60 := n.mTimerTask.minutes_lt
  unfold hourFate at h
  split at h
  · split at h
    · split at h
      · rw [← Option.some.inj h]
        show n.getMinutes + 59 < 144
        omega
      · split at h
        · rw [← Option.some.inj h]
          exact Nat.lt_trans hLt (by decide)
        · cases h
    · rw [← Option.some.inj h]
      exact hp
  · rw [← Option.some.inj h]
    exact hp

theorem restFate_lt {s m hr : Nat} {place : Nat × TimerNode} (hp : p < 144)
    (h : restFate s m hr p n = some place) : place.1 < 144 := by
  unfold restFate at h
  split at h
  · obtain ⟨place₁, hMinute, hHour⟩ := Option.bind_eq_some_iff.mp h
    have hp₁ := minuteFate_lt hp hMinute
    split at hHour
    · exact hourFate_lt hp₁ hHour
    · rw [← Option.some.inj hHour]
      exact hp₁
  · rw [← Option.some.inj h]
    exact hp

theorem Holds.atMostOne {r : List Firing × TimeWheelTimer} {place : Place} (h : Holds n r place)
    (hLt : ∀ place', place = some place' → place'.1 < 144) : AtMostOne r.2 := by
  cases place with
  | none => exact Or.inl h.2
  | some place => exact Or.inr ⟨place.1, place.2, hLt place rfl, h.2⟩

theorem AtMostOne.tickMinute (h : AtMostOne t) : AtMostOne t.tickMinute.2 := by
  rcases h with hVacant | ⟨p, n, hp, hAlone⟩
  · exact Or.inl hVacant.tickMinute.2
  · exact (tickMinute_fate hAlone).atMostOne fun _ => restFate_lt hp

theorem Vacant.addTimerNodeFor (h : Vacant t) (task : TimerTask) :
    AtMostOne (t.addTimerNodeFor task) := by
  by_cases hDelay : 0 < task.delay
  · rw [addTimerNodeFor_eq hDelay]
    exact Or.inr ⟨_, _, slotFor_lt task, h.push _ _⟩
  · -- a task without a delay gets no node
    have hNone : t.addTimerNodeFor task = t := by
      unfold TimerTask.delay at hDelay
      exact if_pos (by omega)
    rw [hNone]
    exact Or.inl h

theorem Vacant.expireNode (h : Vacant t) (n : TimerNode) : AtMostOne (t.expireNode n) := by
  unfold TimeWheelTimer.expireNode repeatTimerTask
  dsimp only
  split
  · exact Or.inl h
  · split
    · split
      · exact Vacant.addTimerNodeFor (t := t.setTask _) h _
      · exact Or.inl h
    · exact Or.inl h

theorem AtMostOne.tick (h : AtMostOne t) : AtMostOne t.tick.2 := by
  rcases h with hVacant | ⟨p, n, hp, hAlone⟩
  · exact Or.inl hVacant.tick.2
  · by_cases hSlot : p = t.mSeconds
    · -- its successor is the one node now
      subst hSlot
      rw [(tick_expire hAlone).2]
      exact AtMostOne.tickMinute (hAlone.clear.expireNode n)
    · exact (tick_alone hAlone hSlot).atMostOne fun _ => restFate_lt hp

/-- A new id gets its node, or none. -/
theorem registerTask_atMostOne (h : Vacant (t.only (View.ofId task.mID))) :
    AtMostOne ((t.registerTask task).only (View.ofId task.mID)) := by
  have hSees : (View.ofId task.mID).sees task = true := decide_eq_true rfl
  have hInsert : Vacant ((t.insertTask task).only (View.ofId task.mID)) := by
    unfold insertTask
    split <;> exact h
  unfold registerTask
  dsimp only
  split
  · exact Or.inl h
  · split
    · rw [addTimerNodeFor_only hSees]
      exact hInsert.addTimerNodeFor task
    · rw [addTimerNodeFor_only hSees]
      exact h.addTimerNodeFor task

theorem taskIDs_remove {es : List TimerEvent} (hCycle : task.mCycleNumber = 0) :
    taskIDs (.register task :: es) = taskIDs es := by
  unfold taskIDs
  rw [registrations, List.filter_cons_of_neg (by simpa using hCycle)]

theorem taskIDs_register {es : List TimerEvent} (hCycle : task.mCycleNumber ≠ 0) :
    taskIDs (.register task :: es) = task.mID :: taskIDs es := by
  unfold taskIDs
  rw [registrations, List.filter_cons_of_pos (by simpa using hCycle), List.map_cons]

/-- The ids still to come are new to the wheels. -/
theorem run_atMostOne {es : List TimerEvent} (hDistinct : (taskIDs es).Nodup)
    (hNew : ∀ id ∈ taskIDs es, Vacant (t.only (View.ofId id)))
    (h : ∀ id, AtMostOne (t.only (View.ofId id))) (id : String) :
    AtMostOne ((final step t es).only (View.ofId id)) := by
  induction es generalizing t with
  | nil => exact h id
  | cons e es ih =>
    cases e with
    | tick =>
      refine ih hDistinct (fun id hMem => ?_) fun id => ?_
      · show Vacant (t.tick.2.only _)
        rw [(tick_only (closed_ofId id t)).state]
        exact (hNew id hMem).tick.2
      · show AtMostOne (t.tick.2.only _)
        rw [(tick_only (closed_ofId id t)).state]
        exact (h id).tick
    | register task =>
      by_cases hCycle : task.mCycleNumber = 0
      · -- a request to remove a task leaves all nodes where they are
        rw [taskIDs_remove hCycle] at hDistinct hNew
        have hErase : t.step (.register task) = t.eraseTimerTask task.mID := if_pos hCycle
        rw [final_cons, hErase]
        exact ih hDistinct hNew h
      · rw [taskIDs_register hCycle] at hDistinct hNew
        obtain ⟨hNotIn, hDistinct'⟩ := List.nodup_cons.mp hDistinct
        refine ih hDistinct' (fun id hMem => ?_) fun id => ?_
        · have hNe : task.mID ≠ id := fun hEq => hNotIn (hEq ▸ hMem)
          show Vacant ((t.registerTask task).only _)
          rw [registerTask_only_id hNe]
          exact hNew id (List.mem_cons_of_mem _ hMem)
        · show AtMostOne ((t.registerTask task).only _)
          by_cases hId : task.mID = id
          · subst hId
            exact registerTask_atMostOne (hNew task.mID List.mem_cons_self)
          · rw [registerTask_only_id hId]
            exact h id

theorem reachable_atMostOne {es : List TimerEvent} (hDistinct : (taskIDs es).Nodup) (id : String) :
    AtMostOne ((final step create es).only (View.ofId id)) :=
  run_atMostOne hDistinct (fun _ _ _ => rfl) (fun _ => Or.inl fun _ => rfl) id

-- ---------------------------------------------------------------------------
-- What is left of a removed task
-- ---------------------------------------------------------------------------

/-- The id has no entry, and nothing that its node would run. -/
structure Silent (t : TimeWheelTimer) (id : String) : Prop where
  unregistered : t.mRegisteredTasks id = none
  nodes : Vacant t ∨ ∃ p n, p < 144 ∧ Alone t p n ∧ n.getId = id ∧ n.mTimerTask.mTask = none

/-- The node in the view of an id has this id. -/
theorem Alone.node_id (h : Alone (t.only (View.ofId id)) p n) : n.getId = id := by
  have hMem : n ∈ (t.mTimeWheel p).filter (View.ofId id).seesNode := by
    rw [show (t.mTimeWheel p).filter (View.ofId id).seesNode = [n] from h.self]
    exact List.mem_singleton_self n
  exact of_decide_eq_true (List.mem_filter.mp hMem).2

/-- Without an entry there is no successor. -/
theorem expireNode_vacant (h : Vacant t) (hReg : t.mRegisteredTasks n.getId = none) :
    Vacant (t.expireNode n) := by
  unfold expireNode repeatTimerTask
  dsimp only
  rw [hReg]
  split
  · exact h
  · split <;> exact h

theorem Silent.tick (h : Silent t id) : t.tick.1 = [] ∧ Silent t.tick.2 id := by
  have hReg := tick_unregistered h.unregistered
  rcases h.nodes with hVacant | ⟨p, n, hp, hAlone, hId, hTask⟩
  · obtain ⟨hRuns, hStill⟩ := hVacant.tick
    exact ⟨hRuns, hReg, Or.inl hStill⟩
  · have hRun : n.run = [] := by
      unfold TimerNode.run
      rw [hTask]
    by_cases hSlot : p = t.mSeconds
    · subst hSlot
      obtain ⟨hRuns, hState⟩ := tick_expire hAlone
      have hVacant : Vacant ((t.clear t.mSeconds).expireNode n) :=
        expireNode_vacant hAlone.clear (hId ▸ h.unregistered)
      obtain ⟨hNone, hStill⟩ :=
        (hVacant.setClock (t.mSeconds + 1) t.mMinutes t.mHours).tickMinute
      refine ⟨?_, hReg, Or.inl ?_⟩
      · rw [hRuns, hRun, hNone]
        rfl
      · rw [hState]
        exact hStill
    · have hTick := tick_alone hAlone hSlot
      cases hFate : restFate (t.mSeconds + 1) t.mMinutes t.mHours p n with
      | none =>
        rw [hFate] at hTick
        exact ⟨hTick.1.trans hRun, hReg, Or.inl hTick.2⟩
      | some place =>
        rw [hFate] at hTick
        have hSame := restFate_task hFate
        refine ⟨hTick.1, hReg, Or.inr ⟨place.1, place.2, restFate_lt hp hFate, hTick.2, ?_, ?_⟩⟩
        · unfold TimerNode.getId
          rw [hSame]
          exact hId
        · rw [hSame, hTask]

theorem run_silent {es : List TimerEvent} (hNone : ∀ e ∈ es, e.NoTask id)
    (h : Silent (t.only (View.ofId id)) id) : Silent ((final step t es).only (View.ofId id)) id := by
  induction es generalizing t with
  | nil => exact h
  | cons e es ih =>
    refine ih (fun e he => hNone e (List.mem_cons_of_mem _ he)) ?_
    cases e with
    | tick =>
      show Silent (t.tick.2.only _) id
      rw [(tick_only (closed_ofId id t)).state]
      exact h.tick.2
    | register task =>
      show Silent ((t.registerTask task).only _) id
      by_cases hId : task.mID = id
      · -- it can only be another request to remove the task
        have hErase : t.registerTask task = t.eraseTimerTask task.mID :=
          if_pos (hNone _ List.mem_cons_self hId)
        rw [hErase, hId, eraseTimerTask_only]
        exact ⟨Function.update_self .., h.nodes⟩
      · rw [registerTask_only_id hId]
        exact h

theorem nodesOf_vacant (h : Vacant (t.only (View.ofId id))) : t.nodesOf id = [] := by
  rw [nodesOf, List.filter_eq_nil_iff]
  intro n hMem hId
  obtain ⟨p, -, hSlot⟩ := List.mem_flatMap.mp hMem
  have hView : n ∈ (t.mTimeWheel p).filter (View.ofId id).seesNode := List.mem_filter.mpr ⟨hSlot, hId⟩
  rw [show (t.mTimeWheel p).filter (View.ofId id).seesNode = [] from h p] at hView
  exact List.not_mem_nil hView

/-- A node of the id with something to run comes to run it. -/
theorem not_staysRemoved {remove : TimerTask} {f : Callback} (hClock : InClock t)
    (hCycle : remove.mCycleNumber = 0) (hp : p < 144)
    (hAlone : Alone (t.only (View.ofId remove.mID)) p n) (hTask : n.mTimerTask.mTask = some f) :
    ¬ t.StaysRemoved remove := by
  intro hRemoved
  have hErase : t.registerTask remove = t.eraseTimerTask remove.mID := if_pos hCycle
  have hAlone₁ : Alone ((t.eraseTimerTask remove.mID).only (View.ofId remove.mID)) p n := hAlone
  have hClock₁ : InClock (t.eraseTimerTask remove.mID) := hClock
  -- nothing but the ticks until it is due
  obtain ⟨d, hd⟩ : ∃ d, (t.eraseTimerTask remove.mID).due p n = d := ⟨_, rfl⟩
  have hUnseen : ∀ e ∈ List.replicate d TimerEvent.tick, e.Unseen (View.ofId remove.mID) := by
    intro e he
    rw [List.eq_of_mem_replicate he]
    trivial
  obtain ⟨p', n', hp', hTask', hAlone', hDue'⟩ :=
    run_until_due hUnseen hClock₁ (closed_ofId remove.mID _) hAlone₁ hp
      (Nat.le_of_eq (by rw [ticks_replicate, hd]))
  rw [ticks_replicate, hd] at hDue'
  have hClock' : InClock (final step (t.eraseTimerTask remove.mID) (List.replicate d .tick)) :=
    final_of_step step_inClock hClock₁
  have hRun : ⟨remove.mID, f⟩ ∈ n'.run := by
    have hFunction : n'.mTimerTask.mTask = some f := by rw [hTask', hTask]
    unfold TimerNode.run
    rw [hFunction, hAlone'.node_id]
    exact List.mem_singleton_self _
  have hFires := tick_due_runs
    (t := (final step (t.eraseTimerTask remove.mID) (List.replicate d .tick)).only
      (View.ofId remove.mID)) hClock' hAlone' hp'
    (show (final step (t.eraseTimerTask remove.mID) (List.replicate d .tick)).due p' n' = 0
      by omega) _ hRun
  rw [← (tick_only (closed_ofId remove.mID _)).runs] at hFires
  have hNoTask : ∀ e ∈ List.replicate d TimerEvent.tick, e.NoTask remove.mID := by
    intro e he
    rw [List.eq_of_mem_replicate he]
    trivial
  refine hRemoved _ hNoTask ⟨remove.mID, f⟩ ?_ rfl
  rw [hErase]
  exact List.mem_of_mem_filter hFires

theorem staysRemoved_of_silent {remove : TimerTask} (hCycle : remove.mCycleNumber = 0)
    (hNodes : Vacant (t.only (View.ofId remove.mID)) ∨ ∃ p n, p < 144 ∧
      Alone (t.only (View.ofId remove.mID)) p n ∧ n.getId = remove.mID ∧
        n.mTimerTask.mTask = none) : t.StaysRemoved remove := by
  intro es hNone r hr hId
  have hErase : t.registerTask remove = t.eraseTimerTask remove.mID := if_pos hCycle
  have hSilent : Silent ((t.registerTask remove).only (View.ofId remove.mID)) remove.mID := by
    rw [hErase, eraseTimerTask_only]
    exact ⟨Function.update_self .., hNodes⟩
  have hRuns := (tick_only (closed_ofId remove.mID _)).runs.trans (run_silent hNone hSilent).tick.1
  have hSeen : r ∈ (final step (t.registerTask remove) es).tick.1.filter
      (View.ofId remove.mID).seesRun := List.mem_filter.mpr ⟨hr, decide_eq_true hId⟩
  rw [hRuns] at hSeen
  exact List.not_mem_nil hSeen

end

/-- **Removed tasks.** In every run with different ids a request to remove a task keeps
it from running again exactly if the wheels hold no node of its id that has something to
run. -/
theorem removed_iff (es : List TimerEvent) (remove : TimerTask)
    (hDistinct : (taskIDs es).Nodup) (hCycle : remove.mCycleNumber = 0) :
    (final step create es).StaysRemoved remove ↔
      ∀ n ∈ (final step create es).nodesOf remove.mID, n.mTimerTask.mTask = none := by
  rcases reachable_atMostOne hDistinct remove.mID with hVacant | ⟨p, n, hp, hAlone⟩
  · rw [nodesOf_vacant hVacant]
    exact iff_of_true (staysRemoved_of_silent hCycle (Or.inl hVacant)) fun _ hMem =>
      absurd hMem List.not_mem_nil
  · rw [nodesOf_alone hAlone hp, List.forall_mem_singleton]
    cases hTask : n.mTimerTask.mTask with
    | none =>
      exact iff_of_true
        (staysRemoved_of_silent hCycle (Or.inr ⟨p, n, hp, hAlone, hAlone.node_id, hTask⟩)) rfl
    | some f =>
      exact iff_of_false (not_staysRemoved (final_inClock es) hCycle hp hAlone hTask) nofun

/-- A one-shot task that has run. -/
theorem removed_late :
    (final step create
      [.register (TimerTask.make 0 0 1 1 "hb" (some 7)), .tick, .tick]).StaysRemoved
        (TimerTask.make 0 0 0 0 "hb" none) :=
  (removed_iff _ (TimerTask.make 0 0 0 0 "hb" none) (by decide) rfl).mpr (by decide +kernel)

/-- A repeating task runs in the second tick behind its removal. -/
theorem not_removed :
    ¬ ∀ (es : List TimerEvent) (remove : TimerTask), (taskIDs es).Nodup →
      remove.mCycleNumber = 0 → (final step create es).StaysRemoved remove := by
  intro h
  have hRemoved := h [.register (TimerTask.make 0 0 1 (-1) "hb" (some 7))]
    (TimerTask.make 0 0 0 0 "hb" none) (by decide) rfl [.tick] (by simp [TimerEvent.NoTask])
  exact hRemoved ⟨"hb", 7⟩ (by decide +kernel) rfl

end TimeWheelTimer

end WarringServer.Utility
