import WarringServer.Server.Rings
import WarringServer.Utility.WheelIndex

/-!
# Silent connections

A connection that falls silent is closed by its own check, if that rings again: the timer has to
take it over, and to keep it. It keeps every task that it takes at a safe second, and the
time-outs of the servers are full minutes, so that only second 0 is not safe for them.

* `Wound` — every check that the timer has taken has its node and its entry, for ever;
* `Ringing.queued` — so its id comes into the queue again, whatever else the server does;
* `closed_of_queued` — and the turns of `timerWork` up to it close a connection that has timed out,
  if no other check has done it before;
* `silent_closed` — a silent connection whose check the timer has taken is closed.
-/

namespace WarringServer.Server

open Run Utility TimeWheelTimer

namespace TaskServer

-- ---------------------------------------------------------------------------
-- What is to hold
-- ---------------------------------------------------------------------------

/-- The timer takes a task at a second that is safe for it. -/
def RegistersSafely (s : TaskServer) : TaskEvent → Prop
  | .registerTask => ∀ timerTask ∈ s.mTaskEntry.head?, s.timer.PhaseSafe (.register timerTask)
  | _ => True

/-- The id has its check, and the timer has taken it over. -/
def OnWheel (s : TaskServer) (id : String) : Prop :=
  id ∈ s.mTimerTasks.map Prod.fst ∧ id ∉ s.mTaskEntry.map TimerTask.mID

/-- The timer rings the id for ever. -/
def Ringing (s : TaskServer) (id : String) : Prop :=
  ∃ task p n, Tracked (s.timer.only (View.ofId id)) id task p n ∧ task.mCycleNumber < 0 ∧
    task.mTask = some 0

/-- Each id is on its way to the timer once, and rings from then on. -/
structure Wound (s : TaskServer) : Prop where
  timeout : 0 < s.HEARTBEAT_TIMEOUT_IN_SECONDS.toNat
  clock : InClock s.timer
  once : (s.mTaskEntry.map TimerTask.mID).Nodup
  tasks : ∀ task ∈ s.mTaskEntry, 0 < task.delay ∧ task.mCycleNumber < 0 ∧ task.mTask = some 0
  fresh : ∀ id, ¬ s.OnWheel id →
    s.timer.mRegisteredTasks id = none ∧ Vacant (s.timer.only (View.ofId id))
  ringing : ∀ id, s.OnWheel id → s.Ringing id

-- ---------------------------------------------------------------------------
-- The ids that the timer has
-- ---------------------------------------------------------------------------

section

variable {s s' : TaskServer} {id : String}

theorem Aside.onWheel (h : Aside s s') : s'.OnWheel id ↔ s.OnWheel id := by
  rw [OnWheel, OnWheel, h.tasks, h.entry]

/-- An id that the timer has is not told to it again. -/
theorem Tells.onWheel (hTells : Tells s s') : s'.OnWheel id ↔ s.OnWheel id := by
  cases hTells with
  | nothing hAside => exact hAside.onWheel
  | check new task hNew hTask hTasks hEntry hTimer hQueue hTimeout =>
    rw [OnWheel, OnWheel, hTasks, hEntry, List.map_append, List.map_append, List.mem_append,
      List.mem_append]
    have hID : (TimerTask.make 0 0 s.HEARTBEAT_TIMEOUT_IN_SECONDS.toNat (-1) new (some 0)).mID =
      new := rfl
    rw [List.map_singleton, List.map_singleton, List.mem_singleton, List.mem_singleton, hID]
    constructor
    · rintro ⟨hKey, hNot⟩
      exact ⟨hKey.resolve_right fun hEq => hNot (Or.inr hEq), fun hIn => hNot (Or.inl hIn)⟩
    · rintro ⟨hKey, hNot⟩
      refine ⟨Or.inl hKey, fun hIn => ?_⟩
      rcases hIn with hIn | rfl
      · exact hNot hIn
      · exact hNew hKey

-- ---------------------------------------------------------------------------
-- The timer rings
-- ---------------------------------------------------------------------------

theorem wound_init (kind : ServerKind) (mServName : String) {timeout : BitVec 64} (linked : Bool)
    (seconds : Int) (hTimeout : 0 < timeout.toNat) :
    (init kind mServName timeout linked seconds).Wound where
  timeout := hTimeout
  clock := show InClock create from ⟨by decide, by decide⟩
  once := List.nodup_nil
  tasks _ h := absurd h List.not_mem_nil
  fresh _ _ := ⟨rfl, fun _ => rfl⟩
  ringing _ h := absurd h.1 List.not_mem_nil

theorem Wound.aside (h : s.Wound) (hAside : Aside s s') : s'.Wound := by
  obtain ⟨hPos, hClock, hOnce, hEntered, hFresh, hRinging⟩ := h
  refine ⟨hAside.timeout ▸ hPos, hAside.timer ▸ hClock, hAside.entry ▸ hOnce,
    hAside.entry ▸ hEntered, ?_, ?_⟩
  · intro id hNot
    rw [hAside.timer]
    exact hFresh id fun hOld => hNot (hAside.onWheel.mpr hOld)
  · intro id hIn
    rw [Ringing, hAside.timer]
    exact hRinging id (hAside.onWheel.mp hIn)

theorem Wound.tells (h : s.Wound) (hTold : s.Told) (hTells : Tells s s') : s'.Wound := by
  have hOn : ∀ id, s'.OnWheel id ↔ s.OnWheel id := fun id => hTells.onWheel
  cases hTells with
  | nothing hAside => exact h.aside hAside
  | check new check hNew hTask hTasks hEntry hTimer hQueue hTimeout =>
    obtain ⟨hPos, hClock, hOnce, hEntered, hFresh, hRinging⟩ := h
    refine ⟨hTimeout ▸ hPos, hTimer ▸ hClock, ?_, ?_, ?_, ?_⟩
    · -- what is on its way has its check, and the new one has none yet
      have hNotIn : new ∉ s.mTaskEntry.map TimerTask.mID := fun hIn => by
        obtain ⟨task, hTask, rfl⟩ := List.mem_map.mp hIn
        exact hNew (hTold.entered task hTask)
      rw [hEntry, List.map_append]
      exact List.nodup_append_comm.mp (List.nodup_cons.mpr ⟨hNotIn, hOnce⟩)
    · rw [hEntry]
      intro task hMem
      rcases List.mem_append.mp hMem with hOld | hLast
      · exact hEntered task hOld
      · rw [List.mem_singleton.mp hLast]
        refine ⟨?_, show (-1 : Int) < 0 by decide, rfl⟩
        rw [TimerTask.make_delay, val]
        omega
    · intro id hNot
      rw [hTimer]
      exact hFresh id fun hOld => hNot ((hOn id).mpr hOld)
    · intro id hIn
      rw [Ringing, hTimer]
      exact hRinging id ((hOn id).mp hIn)

theorem wound_tick (h : s.Wound) : (s.step .tick).Wound := by
  refine ⟨h.timeout, step_inClock s.timer .tick h.clock, h.once, h.tasks, ?_, ?_⟩
  · intro id hNot
    obtain ⟨hNone, hVacant⟩ := h.fresh id hNot
    refine ⟨tick_unregistered hNone, ?_⟩
    show Vacant (s.timer.tick.2.only _)
    rw [(tick_only (closed_ofId id s.timer)).state]
    exact hVacant.tick.2
  · intro id hOn
    obtain ⟨task, p, n, hTracked, hCycle, hTask⟩ := h.ringing id hOn
    rcases tick_tracked (t := s.timer.only (View.ofId id)) h.clock hTracked with
      ⟨hLast, -⟩ | ⟨task', p', n', hNext, hSame⟩
    · omega
    · have hEq : task' = task := hSame.elim (·) (·.trans (countDown_of_neg hCycle))
      subst hEq
      refine ⟨task', p', n', ?_, hCycle, hTask⟩
      show Tracked (s.timer.tick.2.only _) ..
      rw [(tick_only (closed_ofId id s.timer)).state]
      exact hNext

theorem wound_registerTask (h : s.Wound) (hTold : s.Told)
    (hSafe : s.RegistersSafely .registerTask) : (s.step .registerTask).Wound := by
  rw [step]
  split
  · exact h
  next timerTask rest hEntry =>
    have hMem : timerTask ∈ s.mTaskEntry := hEntry ▸ List.mem_cons_self
    have hPhase := hSafe timerTask (by rw [hEntry]; rfl)
    have hOnce := h.once
    rw [hEntry] at hOnce
    obtain ⟨hNotIn, hRest⟩ := List.nodup_cons.mp hOnce
    obtain ⟨hDelay, hCycle, hTask⟩ := h.tasks timerTask hMem
    have hKey := hTold.entered timerTask hMem
    obtain ⟨hNone, hVacant⟩ := h.fresh timerTask.mID fun hOn => hOn.2 (List.mem_map_of_mem hMem)
    -- any other id is on the wheel if it was
    have hOn : ∀ id, timerTask.mID ≠ id → (id ∈ s.mTaskEntry.map TimerTask.mID ↔
        id ∈ rest.map TimerTask.mID) := fun id hNe => by
      rw [hEntry, List.map_cons, List.mem_cons]
      exact or_iff_right fun hEq => hNe hEq.symm
    refine ⟨h.timeout, step_inClock s.timer (.register timerTask) h.clock, hRest,
      fun task hIn => h.tasks task (hEntry ▸ List.mem_cons_of_mem _ hIn), ?_, ?_⟩
    · intro id hNot
      have hNe : timerTask.mID ≠ id := by
        rintro rfl
        exact hNot ⟨hKey, hNotIn⟩
      show (s.timer.registerTask timerTask).mRegisteredTasks id = none ∧
        Vacant ((s.timer.registerTask timerTask).only _)
      rw [registerTask_registered_other hNe, registerTask_only_id hNe]
      exact h.fresh id fun hOld => hNot ⟨hOld.1, fun hLater => hOld.2 ((hOn id hNe).mpr hLater)⟩
    · intro id hIn
      show ∃ task p n, Tracked ((s.timer.registerTask timerTask).only _) .. ∧ _
      by_cases hEq : timerTask.mID = id
      · subst hEq
        have hReg : (s.timer.registerTask timerTask).mRegisteredTasks timerTask.mID =
            some timerTask := by
          unfold registerTask insertTask
          dsimp only
          rw [if_neg (by omega), if_pos (Or.inl hCycle), hNone, addTimerNodeFor_registered]
          exact Function.update_self ..
        obtain ⟨p, n, hTracked⟩ := register_tracked hDelay hNone hVacant hPhase hReg
        exact ⟨timerTask, p, n, hTracked, hCycle, hTask⟩
      · rw [registerTask_only_id hEq]
        exact h.ringing id ⟨hIn.1, fun hOld => hIn.2 ((hOn id hEq).mp hOld)⟩

/-- **One step.** -/
theorem Wound.step (h : s.Wound) (hTold : s.Told) {e : TaskEvent} (hSafe : s.RegistersSafely e) :
    (s.step e).Wound := by
  cases e with
  | accept connfd hostAndService => exact h.tells hTold (accept_tells s connfd hostAndService)
  | stamp conn timestamp => exact h.aside ⟨rfl, rfl, rfl, rfl, rfl⟩
  | close conn => exact h.aside (removeConnection_aside s conn)
  | advance seconds => exact h.aside ⟨rfl, rfl, rfl, rfl, rfl⟩
  | tick => exact wound_tick h
  | registerTask => exact wound_registerTask h hTold hSafe
  | timerWork now =>
    have hPopped : s.popped.Wound := ⟨h.timeout, h.clock, h.once, h.tasks, h.fresh, h.ringing⟩
    exact hPopped.aside (timerWork_aside s now)

/-- Every id is given out once. -/
theorem distinct_step (h : (s.mTimerTasks.map Prod.fst).Nodup) (e : TaskEvent) :
    ((s.step e).mTimerTasks.map Prod.fst).Nodup := by
  cases e with
  | accept connfd hostAndService =>
    cases accept_tells s connfd hostAndService with
    | nothing hAside => exact hAside.tasks ▸ h
    | check new check hNew hTask hTasks hEntry hTimer hQueue hTimeout =>
      rw [hTasks, List.map_append]
      exact List.nodup_append_comm.mp (List.nodup_cons.mpr ⟨hNew, h⟩)
  | close conn => exact (removeConnection_aside s conn).tasks ▸ h
  | registerTask =>
    rw [TaskServer.step]
    split <;> exact h
  | timerWork now => exact (timerWork_aside s now).tasks ▸ h
  | _ => exact h

theorem step_timeout (s : TaskServer) (e : TaskEvent) :
    (s.step e).HEARTBEAT_TIMEOUT_IN_SECONDS = s.HEARTBEAT_TIMEOUT_IN_SECONDS := by
  cases e with
  | accept connfd hostAndService => exact (accept_tells s connfd hostAndService).timeout
  | close conn => exact (removeConnection_aside s conn).timeout
  | registerTask =>
    rw [TaskServer.step]
    split <;> rfl
  | timerWork now => exact (timerWork_aside s now).timeout
  | _ => rfl

-- ---------------------------------------------------------------------------
-- What the timer sees
-- ---------------------------------------------------------------------------

/-- What a step is for the timer. -/
def timerEvents (s : TaskServer) : TaskEvent → List TimerEvent
  | .tick => [.tick]
  | .registerTask => (s.mTaskEntry.take 1).map .register
  | _ => []

theorem step_timer (s : TaskServer) (e : TaskEvent) :
    (s.step e).timer = final TimeWheelTimer.step s.timer (s.timerEvents e) := by
  cases e with
  | accept connfd hostAndService => exact (accept_tells s connfd hostAndService).timer
  | close conn => exact (removeConnection_aside s conn).timer
  | registerTask =>
    rw [TaskServer.step, timerEvents]
    split
    next hEntry =>
      rw [hEntry]
      rfl
    next timerTask rest hEntry =>
      rw [hEntry]
      rfl
  | timerWork now => exact (timerWork_aside s now).timer
  | _ => rfl

theorem final_timer (s : TaskServer) (es : List TaskEvent) :
    (final step s es).timer =
      final TimeWheelTimer.step s.timer (outputs step timerEvents s es) := by
  induction es generalizing s with
  | nil => rfl
  | cons e es ih => rw [final_cons, ih, step_timer, outputs, final_append]

/-- An id that the timer has stays there, and is not told to it again. -/
theorem onWheel_step (h : s.OnWheel id) (e : TaskEvent) :
    (s.step e).OnWheel id ∧ ∀ event ∈ s.timerEvents e, event.Other id := by
  cases e with
  | tick => exact ⟨h, fun event hMem => by rw [List.mem_singleton.mp hMem]; trivial⟩
  | registerTask =>
    constructor
    · rw [TaskServer.step]
      split
      · exact h
      next timerTask rest hEntry =>
        refine ⟨h.1, fun hLater => h.2 ?_⟩
        rw [hEntry]
        exact List.mem_cons_of_mem _ hLater
    · intro event hMem
      obtain ⟨timerTask, hTask, rfl⟩ := List.mem_map.mp hMem
      exact fun hEq => h.2 (hEq ▸ List.mem_map_of_mem (List.mem_of_mem_take hTask))
  | accept connfd hostAndService =>
    exact ⟨(accept_tells s connfd hostAndService).onWheel.mpr h,
      fun event hMem => absurd hMem List.not_mem_nil⟩
  | close conn =>
    exact ⟨(removeConnection_aside s conn).onWheel.mpr h,
      fun event hMem => absurd hMem List.not_mem_nil⟩
  | timerWork now =>
    have hPopped : s.popped.OnWheel id := h
    exact ⟨(timerWork_aside s now).onWheel.mpr hPopped,
      fun event hMem => absurd hMem List.not_mem_nil⟩
  | _ => exact ⟨h, fun event hMem => absurd hMem List.not_mem_nil⟩

theorem onWheel_outputs (h : s.OnWheel id) (es : List TaskEvent) :
    ∀ event ∈ outputs step timerEvents s es, event.Other id := by
  induction es generalizing s with
  | nil => exact fun event hMem => absurd hMem List.not_mem_nil
  | cons e es ih =>
    intro event hMem
    obtain ⟨hNext, hOther⟩ := onWheel_step h e
    rcases List.mem_append.mp hMem with hHere | hLater
    · exact hOther event hHere
    · exact ih hNext event hLater

/-- The ticks of a run are those of its timer. -/
theorem ticks_outputs (s : TaskServer) (es : List TaskEvent) :
    ticks (outputs step timerEvents s es) = es.count .tick := by
  induction es generalizing s with
  | nil => rfl
  | cons e es ih =>
    have hOne : ticks (s.timerEvents e) = if e = .tick then 1 else 0 := by
      cases e with
      | tick => rfl
      | registerTask =>
        rw [if_neg (by simp)]
        refine List.count_eq_zero.mpr ?_
        intro hMem
        obtain ⟨timerTask, -, hEq⟩ := List.mem_map.mp hMem
        cases hEq
      | _ => rfl
    rw [outputs, ticks, List.count_append, List.count_cons]
    have hRest := ih (s.step e)
    unfold ticks at hRest hOne
    rw [hRest, hOne, Nat.add_comm]
    congr 1
    simp only [beq_iff_eq]

/-- A ringing id comes into the queue within some number of ticks, whatever else happens. -/
theorem Ringing.queued (h : s.Ringing id) (hClock : InClock s.timer) (hOn : s.OnWheel id) :
    ∃ d, ∀ es : List TaskEvent, es.count .tick = d →
      id ∈ (final step s (es ++ [.tick])).mTimeoutTaskIDQueue := by
  obtain ⟨task, p, n, hTracked, hCycle, hTask⟩ := h
  have hID : task.mID = id :=
    (s.timer.only (View.ofId id)).registered_id id task hTracked.registered
  obtain ⟨d, hRings⟩ := hTracked.keepsRunning hClock hCycle 0 hTask [] fun e he =>
    absurd he List.not_mem_nil
  refine ⟨d, fun es hTicks => ?_⟩
  have hRing := hRings (outputs step timerEvents s es) (hID ▸ onWheel_outputs hOn es)
    ((ticks_outputs s es).trans hTicks)
  rw [List.nil_append, ← final_timer, hID] at hRing
  rw [final_append]
  exact List.mem_append_right _ (List.mem_map.mpr ⟨_, hRing, rfl⟩)

-- ---------------------------------------------------------------------------
-- One connection
-- ---------------------------------------------------------------------------

/-- The connection is as it was, or it has been closed. -/
def Remains (s : TaskServer) (conn : Nat) (c : AcceptedConnection) : Prop :=
  s.connections[conn]? = some c ∨ s.connections[conn]? = some { c with isOpen := false }

variable {conn : Nat} {c : AcceptedConnection}

theorem remains_closed (h : s.Remains conn { c with isOpen := false }) :
    s.connections[conn]? = some { c with isOpen := false } := h.elim (·) (·)

theorem remains_removeConnection (h : s.Remains conn c) (conn' : Nat) :
    (s.removeConnection conn').Remains conn c := by
  unfold removeConnection
  split
  · exact h
  · split
    · unfold Remains
      dsimp only
      by_cases hSame : conn' = conn
      · subst hSame
        rw [List.getElem?_modify_eq]
        rcases h with h | h
        · rw [h]
          exact Or.inr rfl
        · rw [h]
          exact Or.inr rfl
      · rw [List.getElem?_modify_ne _ _ hSame]
        exact h
    · exact h

theorem newConnectionFunc_connections (s : TaskServer) (connfd : Nat) (hostAndService : String) :
    ∃ c, (s.newConnectionFunc connfd hostAndService).connections = s.connections ++ [c] := by
  obtain ⟨names, hNames⟩ :=
    insertConnection_eq s (s.generateConnID connfd hostAndService) s.connections.length
  unfold newConnectionFunc
  dsimp only
  rw [hNames, (registerTimerTask_frame _ _ _).1]
  exact ⟨_, rfl⟩

theorem remains_step (h : s.Remains conn c) {e : TaskEvent}
    (hSilent : ∀ timestamp, e ≠ .stamp conn timestamp) : (s.step e).Remains conn c := by
  cases e with
  | accept connfd hostAndService =>
    show (if _ then _ else _ : TaskServer).Remains conn c
    split
    · exact h
    · obtain ⟨new, hNew⟩ := newConnectionFunc_connections s connfd hostAndService
      have hLt : conn < s.connections.length := by
        rcases h with h | h <;> exact (List.getElem?_eq_some_iff.mp h).1
      rw [Remains, hNew, List.getElem?_append_left hLt]
      exact h
  | stamp conn' timestamp =>
    have hOther : conn' ≠ conn := fun hEq => hSilent timestamp (hEq ▸ rfl)
    show (List.modify _ _ _)[conn]? = _ ∨ (List.modify _ _ _)[conn]? = _
    rw [List.getElem?_modify_ne _ _ hOther]
    exact h
  | close conn' => exact remains_removeConnection h conn'
  | advance seconds => exact h
  | tick => exact h
  | registerTask =>
    rw [step]
    split <;> exact h
  | timerWork now =>
    show (s.timerWork now).Remains conn c
    unfold timerWork
    dsimp only
    split
    · exact h
    · exact remains_removeConnection
        (s := { s with mTimeoutTaskIDQueue := s.mTimeoutTaskIDQueue.tail }) h _

theorem remains_final (h : s.Remains conn c) (es : List TaskEvent)
    (hSilent : ∀ timestamp, .stamp conn timestamp ∉ es) : (final step s es).Remains conn c := by
  induction es generalizing s with
  | nil => exact h
  | cons e es ih =>
    refine ih (remains_step h fun timestamp hEq => ?_) fun timestamp hMem => ?_
    · exact hSilent timestamp (hEq ▸ List.mem_cons_self)
    · exact hSilent timestamp (List.mem_cons_of_mem _ hMem)

/-- Where an id occurs once among the connections, it is that of one connection. -/
theorem index_of_filterMap_nodup {α β : Type*} {f : α → Option β} {l : List α} {i j : Nat}
    {a b : α} {x : β} (hNodup : (l.filterMap f).Nodup) (hi : l[i]? = some a) (hj : l[j]? = some b)
    (ha : f a = some x) (hb : f b = some x) : i = j := by
  induction l generalizing i j with
  | nil => cases hi
  | cons y l ih =>
    have hTail : (l.filterMap f).Nodup :=
      hNodup.sublist ((List.sublist_cons_self y l).filterMap f)
    have hOnce : ∀ {k : Nat} {z : α}, l[k]? = some z → f z = some x → f y ≠ some x := by
      intro k z hk hz hy
      rw [List.filterMap_cons_some hy] at hNodup
      exact (List.nodup_cons.mp hNodup).1 (List.mem_filterMap.mpr ⟨z, List.mem_of_getElem? hk, hz⟩)
    cases i with
    | zero =>
      cases j with
      | zero => rfl
      | succ j =>
        rw [List.getElem?_cons_zero, Option.some.injEq] at hi
        exact absurd (hi ▸ ha) (hOnce hj hb)
    | succ i =>
      cases j with
      | zero =>
        rw [List.getElem?_cons_zero, Option.some.injEq] at hj
        exact absurd (hj ▸ hb) (hOnce hi ha)
      | succ j => exact congrArg _ (ih hTail hi hj)

/-- Turns of `timerWork` up to the id close a connection that has timed out. -/
theorem closed_of_queued (hTold : s.Told) (h : s.Consistent)
    (hDistinct : (s.mTimerTasks.map Prod.fst).Nodup) (hRemains : s.Remains conn c)
    (hID : c.taskID = some id) {now : BitVec 64}
    (hTimedOut : timedOut s.HEARTBEAT_TIMEOUT_IN_SECONDS now c.mCommunicationTimestamp = true)
    {n : Nat} (hQueued : id ∈ s.mTimeoutTaskIDQueue.take n) :
    (final step s (List.replicate n (.timerWork now))).connections[conn]? =
      some { c with isOpen := false } := by
  have hSilent : ∀ (k : Nat) timestamp,
      TaskEvent.stamp conn timestamp ∉ List.replicate k (.timerWork now) := by
    intro k timestamp hMem
    cases List.eq_of_mem_replicate hMem
  induction n generalizing s with
  | zero => exact absurd hQueued List.not_mem_nil
  | succ n ih =>
    rw [List.replicate_succ, final_cons]
    have hAside := timerWork_aside s now
    have hNext : (s.step (.timerWork now)).Remains conn c :=
      remains_step hRemains fun timestamp hEq => by cases hEq
    cases hQueue : s.mTimeoutTaskIDQueue with
    | nil =>
      rw [hQueue] at hQueued
      exact absurd hQueued List.not_mem_nil
    | cons first rest =>
      rw [hQueue, List.take_succ_cons] at hQueued
      rcases List.mem_cons.mp hQueued with rfl | hLater
      · -- its turn: it is the check of this connection that is run
        obtain ⟨conn', c', -, hc', hID', hCloses⟩ :=
          checks_its_own hTold h (.timerWork now) now rfl id (by rw [hQueue]; rfl)
        rw [h.keys] at hDistinct
        have hClosed : (s.step (.timerWork now)).Remains conn { c with isOpen := false } := by
          rcases hRemains with hc | hc
          · obtain rfl := index_of_filterMap_nodup hDistinct hc hc' hID hID'
            obtain rfl := Option.some.inj (hc.symm.trans hc')
            cases hOpen : c.isOpen with
            | true =>
              have hLt := (List.getElem?_eq_some_iff.mp hc).1
              rw [Remains, hCloses hOpen, hTimedOut, List.getElem?_set_self hLt]
              exact Or.inl rfl
            | false =>
              have hSame : { c with isOpen := false } = c := by rw [← hOpen]
              rw [hSame]
              exact hNext
          · exact remains_step (Or.inl hc) fun timestamp hEq => by cases hEq
        exact remains_closed (remains_final hClosed _ (hSilent n))
      · refine ih (hTold.step _) (h.step _) (distinct_step hDistinct _) hNext ?_ ?_
        · rw [step_timeout]
          exact hTimedOut
        · rw [hAside.queue]
          show id ∈ s.mTimeoutTaskIDQueue.tail.take n
          rw [hQueue]
          exact hLater

end

/-- What holds in every run of a server with this time-out. -/
structure Sound (timeout : BitVec 64) (s : TaskServer) : Prop where
  told : s.Told
  consistent : s.Consistent
  distinct : (s.mTimerTasks.map Prod.fst).Nodup
  timeout : s.HEARTBEAT_TIMEOUT_IN_SECONDS = timeout

theorem sound_init (kind : ServerKind) (mServName : String) (timeout : BitVec 64) (linked : Bool)
    (seconds : Int) : Sound timeout (init kind mServName timeout linked seconds) :=
  ⟨told_init kind mServName timeout linked seconds,
    init_consistent kind mServName timeout linked seconds, List.nodup_nil, rfl⟩

theorem Sound.step {timeout : BitVec 64} {s : TaskServer} (h : Sound timeout s) (e : TaskEvent) :
    Sound timeout (s.step e) :=
  ⟨h.told.step e, h.consistent.step e, distinct_step h.distinct e,
    (step_timeout s e).trans h.timeout⟩

/-- **Silent connections are closed.** Take a server with a time-out, whose timer has taken every
check at a second that is safe for it, and one of its connections whose check the timer has taken.
After some number of ticks, whatever else has happened: if the connection has been silent, and its
last message is as old as the time-out when `timerWork` goes through what is in the queue, it has
been closed.

As in `rings_checked`, a connection is accepted in one step: no thread is to handle its events, look
it up or check it until `newConnectionFunc` has set it up. Otherwise one that has closed its socket
itself could stay under its name, and a later connection of that name would not be found. -/
theorem silent_closed (kind : ServerKind) (mServName : String) (timeout : BitVec 64)
    (linked : Bool) (seconds : Int) (hTimeout : 0 < timeout.toNat) (es : List TaskEvent)
    (hSafe : Each step RegistersSafely (init kind mServName timeout linked seconds) es) :
    let s := final step (init kind mServName timeout linked seconds) es
    ∀ conn c id, s.connections[conn]? = some c → c.taskID = some id →
      id ∉ s.mTaskEntry.map TimerTask.mID →
      ∃ d, ∀ es' : List TaskEvent, (∀ timestamp, .stamp conn timestamp ∉ es') →
        es'.count .tick = d →
        ∀ now, timedOut timeout now c.mCommunicationTimestamp = true →
          let s' := final step s (es' ++ [.tick])
          (final step s' (List.replicate s'.mTimeoutTaskIDQueue.length
            (.timerWork now))).connections[conn]? = some { c with isOpen := false } := by
  intro s conn c id hc hID hTaken
  have hAlways : Always step (fun s => Sound timeout s ∧ s.Wound)
      (init kind mServName timeout linked seconds) es :=
    always_of_each (fun _ _ => True) (fun _ _ _ _ _ _ => trivial)
      (fun _ e _ _ h hStep => ⟨h.1.step e, h.2.step h.1.told hStep⟩)
      ⟨sound_init kind mServName timeout linked seconds,
        wound_init kind mServName linked seconds hTimeout⟩ trivial hSafe
  obtain ⟨hSound, hWound⟩ : Sound timeout s ∧ s.Wound := hAlways.final
  have hOn : s.OnWheel id := by
    refine ⟨?_, hTaken⟩
    rw [hSound.consistent.keys]
    exact List.mem_filterMap.mpr ⟨c, List.mem_of_getElem? hc, hID⟩
  obtain ⟨d, hQueued⟩ := (hWound.ringing id hOn).queued hWound.clock hOn
  refine ⟨d, fun es' hSilent hTicks now hTimedOut => ?_⟩
  have hSound' : Sound timeout (final step s (es' ++ [.tick])) :=
    final_of_step (fun _ e h => h.step e) hSound
  have hRemains : (final step s (es' ++ [.tick])).Remains conn c := by
    refine remains_final (Or.inl hc) _ ?_
    intro timestamp hMem
    rcases List.mem_append.mp hMem with hOld | hTick
    · exact hSilent timestamp hOld
    · cases List.mem_singleton.mp hTick
  refine closed_of_queued hSound'.told hSound'.consistent hSound'.distinct hRemains hID
    (hSound'.timeout ▸ hTimedOut) ?_
  rw [List.take_length]
  exact hQueued es' hTicks

/-- A gateway accepts a client in second 1. -/
theorem silent_closed_minute :
    let s := final step (init .gatewayServer "gateway" 60#64 true 0)
      [.tick, .accept 7 "10.0.0.1:4000", .registerTask]
    s.mTaskEntry = [] ∧ (s.connections.filterMap (·.taskID)).length = 1 ∧
      ∀ conn c id, s.connections[conn]? = some c → c.taskID = some id →
      id ∉ s.mTaskEntry.map TimerTask.mID →
      ∃ d, ∀ es' : List TaskEvent, (∀ timestamp, .stamp conn timestamp ∉ es') →
        es'.count .tick = d →
        ∀ now, timedOut 60#64 now c.mCommunicationTimestamp = true →
          let s' := final step s (es' ++ [.tick])
          (final step s' (List.replicate s'.mTimeoutTaskIDQueue.length
            (.timerWork now))).connections[conn]? = some { c with isOpen := false } := by
  refine ⟨rfl, rfl, silent_closed .gatewayServer "gateway" 60#64 true 0 (by decide) _
    ⟨trivial, trivial, fun timerTask hTask => ?_, trivial⟩⟩
  have hMake : TimerTask.make 0 0 60 (-1) _ (some 0) = timerTask := Option.some.inj hTask
  subst hMake
  refine Or.inr (Or.inr (Or.inr fun k _ => ?_))
  show (1 + 0 + k * 0) % 60 ≠ 0
  omega

end TaskServer

end WarringServer.Server
