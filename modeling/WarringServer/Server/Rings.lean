import WarringServer.Server.HeartbeatTasks
import WarringServer.Utility.RemoveTask

/-!
# From the wheel to the close

A heartbeat check passes through the hands of three threads. The one that accepts puts it into
`mTimerTasks` and tells the timer its id; the timer rings, which puts the id into
`mTimeoutTaskIDQueue`; and `timerWork` takes the id out, looks it up and runs what it finds.

* `Aside`, `Tells` — what the steps of the server do to the timer and the ways to it and from it;
* `Told` — the timer, its entry and the queue hold ids of checks and no others, since a check is
  there before the timer is told of it;
* `check_of_queued` — so `timerWork` finds the check of the connection that the id was given to;
* `rings_checked` — every ring is taken once and in order, and a connection that is still open is
  closed exactly if it has timed out.
-/

namespace WarringServer.Server

open Run Utility TimeWheelTimer

namespace TaskServer

-- ---------------------------------------------------------------------------
-- What is to hold
-- ---------------------------------------------------------------------------

/-- The ids that a step puts into `mTimeoutTaskIDQueue`. -/
def rung (s : TaskServer) : TaskEvent → List String
  | .tick => s.timer.tick.1.map Firing.id
  | _ => []

/-- The id that `timerWork` takes out of it. -/
def taken (s : TaskServer) : TaskEvent → List String
  | .timerWork _ => s.mTimeoutTaskIDQueue.take 1
  | _ => []

/-- The id that `timerWork` takes has its check in `mTimerTasks`, and leads to the connection it
was given to. If that is still open, it is closed exactly if it has timed out, and no other
connection is touched. -/
def ChecksItsOwn (s : TaskServer) (e : TaskEvent) : Prop :=
  ∀ now, e = .timerWork now → ∀ id ∈ s.mTimeoutTaskIDQueue.head?, ∃ conn c,
    (∃ task, s.mTimerTasks.lookup id = some task ∧ task.registeredFor = conn) ∧
    s.connections[conn]? = some c ∧ c.taskID = some id ∧ (c.isOpen = true →
      (s.step e).connections = s.connections.set conn { c with
        isOpen := !timedOut s.HEARTBEAT_TIMEOUT_IN_SECONDS now c.mCommunicationTimestamp })

/-- The timer knows the ids of checks and no others. -/
structure Told (s : TaskServer) : Prop where
  queued : ∀ id ∈ s.mTimeoutTaskIDQueue, id ∈ s.mTimerTasks.map Prod.fst
  entered : ∀ task ∈ s.mTaskEntry, task.mID ∈ s.mTimerTasks.map Prod.fst
  wheels : ∀ id, id ∉ s.mTimerTasks.map Prod.fst → Vacant (s.timer.only (View.ofId id))
  timeouts : ∀ p ∈ s.mTimerTasks,
    p.2.op.HEARTBEAT_TIMEOUT_IN_SECONDS = s.HEARTBEAT_TIMEOUT_IN_SECONDS

-- ---------------------------------------------------------------------------
-- What the steps do
-- ---------------------------------------------------------------------------

/-- A step beside the timer and the ways to it and from it. -/
structure Aside (s s' : TaskServer) : Prop where
  tasks : s'.mTimerTasks = s.mTimerTasks
  entry : s'.mTaskEntry = s.mTaskEntry
  timer : s'.timer = s.timer
  queue : s'.mTimeoutTaskIDQueue = s.mTimeoutTaskIDQueue
  timeout : s'.HEARTBEAT_TIMEOUT_IN_SECONDS = s.HEARTBEAT_TIMEOUT_IN_SECONDS

/-- What the timer is told when a connection is accepted: nothing, or the id of a new check. -/
inductive Tells (s s' : TaskServer) : Prop where
  | nothing (hAside : Aside s s')
  | check (id : String) (task : HeartbeatTask) (hNew : id ∉ s.mTimerTasks.map Prod.fst)
      (hTask : task.op.HEARTBEAT_TIMEOUT_IN_SECONDS = s.HEARTBEAT_TIMEOUT_IN_SECONDS)
      (hTasks : s'.mTimerTasks = s.mTimerTasks ++ [(id, task)])
      (hEntry : s'.mTaskEntry = s.mTaskEntry ++
        [TimerTask.make 0 0 s.HEARTBEAT_TIMEOUT_IN_SECONDS.toNat (-1) id (some 0)])
      (hTimer : s'.timer = s.timer) (hQueue : s'.mTimeoutTaskIDQueue = s.mTimeoutTaskIDQueue)
      (hTimeout : s'.HEARTBEAT_TIMEOUT_IN_SECONDS = s.HEARTBEAT_TIMEOUT_IN_SECONDS)

section

variable {s s' : TaskServer}

/-- The acceptor does not touch the timer itself. -/
theorem Tells.timer (h : Tells s s') : s'.timer = s.timer := by
  cases h with
  | nothing hAside => exact hAside.timer
  | check id task hNew hTask hTasks hEntry hTimer hQueue hTimeout => exact hTimer

/-- Nor does it ring. -/
theorem Tells.queue (h : Tells s s') : s'.mTimeoutTaskIDQueue = s.mTimeoutTaskIDQueue := by
  cases h with
  | nothing hAside => exact hAside.queue
  | check id task hNew hTask hTasks hEntry hTimer hQueue hTimeout => exact hQueue

theorem Tells.timeout (h : Tells s s') :
    s'.HEARTBEAT_TIMEOUT_IN_SECONDS = s.HEARTBEAT_TIMEOUT_IN_SECONDS := by
  cases h with
  | nothing hAside => exact hAside.timeout
  | check id task hNew hTask hTasks hEntry hTimer hQueue hTimeout => exact hTimeout

/-- With a timer that is linked, a new check under an id that is not in use; else nothing. -/
theorem registerTimerTask_tells (s : TaskServer) (conn : Nat) (connName : String) :
    Tells s (s.registerTimerTask conn connName).2 := by
  unfold registerTimerTask
  split
  · dsimp only
    split
    next => exact .nothing ⟨rfl, rfl, rfl, rfl, rfl⟩
    next hNone =>
      -- the check is there before the timer is told of it
      refine .check _ _ (fun hMem => ?_) rfl rfl rfl rfl rfl rfl
      obtain ⟨p, hp, hID⟩ := List.mem_map.mp hMem
      have hNe := List.lookup_eq_none_iff.mp hNone p hp
      simp [hID] at hNe
  · exact .nothing ⟨rfl, rfl, rfl, rfl, rfl⟩

/-- Entering a connection changes the table of names alone. -/
theorem insertConnection_eq (s : TaskServer) (connName : String) (conn : Nat) :
    ∃ names, s.insertConnection connName conn = { s with mTcpConnections := names } := by
  unfold insertConnection
  split
  · exact ⟨_, rfl⟩
  · exact ⟨_, rfl⟩

/-- A descriptor that is in use is not accepted; with any other comes what its check tells. -/
theorem accept_tells (s : TaskServer) (connfd : Nat) (hostAndService : String) :
    Tells s (s.step (.accept connfd hostAndService)) := by
  show Tells s (if _ then _ else _)
  split
  · exact .nothing ⟨rfl, rfl, rfl, rfl, rfl⟩
  · obtain ⟨names, hNames⟩ :=
      insertConnection_eq s (s.generateConnID connfd hostAndService) s.connections.length
    have hTells := registerTimerTask_tells { s with mTcpConnections := names }
      s.connections.length (s.generateConnID connfd hostAndService)
    unfold newConnectionFunc
    dsimp only
    rw [hNames]
    cases hTells with
    | nothing hAside =>
      exact .nothing ⟨hAside.tasks, hAside.entry, hAside.timer, hAside.queue, hAside.timeout⟩
    | check id task hNew hTask hTasks hEntry hTimer hQueue hTimeout =>
      exact .check id task hNew hTask hTasks hEntry hTimer hQueue hTimeout

/-- A close leaves the check of the connection where it is. -/
theorem removeConnection_aside (s : TaskServer) (conn : Nat) :
    Aside s (s.removeConnection conn) := by
  unfold removeConnection
  split
  · exact ⟨rfl, rfl, rfl, rfl, rfl⟩
  · split <;> exact ⟨rfl, rfl, rfl, rfl, rfl⟩

/-- The server, when `timerWork` has taken an id. -/
def popped (s : TaskServer) : TaskServer :=
  { s with mTimeoutTaskIDQueue := s.mTimeoutTaskIDQueue.tail }

/-- What `timerWork` runs may close a connection, and does no more. -/
theorem timerWork_aside (s : TaskServer) (now : BitVec 64) :
    Aside s.popped (s.step (.timerWork now)) := by
  show Aside s.popped (s.timerWork now)
  unfold timerWork
  dsimp only
  split
  · exact ⟨rfl, rfl, rfl, rfl, rfl⟩
  next task conn _ =>
    obtain ⟨hTasks, hEntry, hTimer, hQueue, hTimeout⟩ := removeConnection_aside s.popped conn
    exact ⟨hTasks, hEntry, hTimer, hQueue, hTimeout⟩

-- ---------------------------------------------------------------------------
-- The ids in the timer
-- ---------------------------------------------------------------------------

/-- An id that is not in the wheels does not ring. -/
theorem not_rung {t : TimeWheelTimer} {id : String} (h : Vacant (t.only (View.ofId id))) :
    id ∉ t.tick.1.map Firing.id := by
  intro hMem
  obtain ⟨r, hr, rfl⟩ := List.mem_map.mp hMem
  have hSeen := (tick_only (closed_ofId r.id t)).runs
  rw [h.tick.1] at hSeen
  exact List.filter_eq_nil_iff.mp hSeen r hr (decide_eq_true rfl)

/-- A new server knows no ids. -/
theorem told_init (kind : ServerKind) (mServName : String) (timeout : BitVec 64) (linked : Bool)
    (seconds : Int) : (init kind mServName timeout linked seconds).Told :=
  ⟨fun _ h => absurd h List.not_mem_nil, fun _ h => absurd h List.not_mem_nil, fun _ _ _ => rfl,
    fun _ h => absurd h List.not_mem_nil⟩

/-- Steps beside the timer. -/
theorem Told.aside (h : s.Told) (hAside : Aside s s') : s'.Told := by
  obtain ⟨hTasks, hEntry, hTimer, hQueue, hTimeout⟩ := hAside
  -- each table is what it was
  constructor
  · rw [hTasks, hQueue]
    exact h.queued
  · rw [hTasks, hEntry]
    exact h.entered
  · rw [hTasks, hTimer]
    exact h.wheels
  · rw [hTasks, hTimeout]
    exact h.timeouts

/-- A new check is known as soon as its id is on the way. -/
theorem Told.tells (h : s.Told) (hTells : Tells s s') : s'.Told := by
  cases hTells with
  | nothing hAside => exact h.aside hAside
  | check id task hNew hTask hTasks hEntry hTimer hQueue hTimeout =>
    have hKeys : s'.mTimerTasks.map Prod.fst = s.mTimerTasks.map Prod.fst ++ [id] := by
      rw [hTasks, List.map_append]
      rfl
    -- one id more is known, and one entry more is on its way
    refine ⟨?_, ?_, ?_, ?_⟩
    · intro id' hMem
      rw [hQueue] at hMem
      exact hKeys ▸ List.mem_append_left _ (h.queued id' hMem)
    · intro task' hMem
      rw [hEntry] at hMem
      rw [hKeys]
      rcases List.mem_append.mp hMem with hOld | hLast
      · exact List.mem_append_left _ (h.entered task' hOld)
      · rw [List.mem_singleton.mp hLast]
        exact List.mem_append_right _ List.mem_cons_self
    · intro id' hNew'
      rw [hTimer]
      exact h.wheels id' fun hOld => hNew' (hKeys ▸ List.mem_append_left _ hOld)
    · intro p hMem
      rw [hTimeout]
      rw [hTasks] at hMem
      rcases List.mem_append.mp hMem with hOld | hLast
      · exact h.timeouts p hOld
      · rw [List.mem_singleton.mp hLast]
        exact hTask

/-- An id that has been taken out of the queue is missed nowhere. -/
theorem told_popped (h : s.Told) : s.popped.Told :=
  ⟨fun id hMem => h.queued id (List.mem_of_mem_tail hMem), h.entered, h.wheels, h.timeouts⟩

/-- What rings was in the wheels, and is known. -/
theorem told_tick (h : s.Told) : (s.step .tick).Told := by
  refine ⟨?_, h.entered, ?_, h.timeouts⟩
  · intro id hMem
    rcases List.mem_append.mp hMem with hOld | hRung
    · exact h.queued id hOld
    · -- an id that nobody knows has no node that could ring
      by_contra hNew
      exact not_rung (h.wheels id hNew) hRung
  · intro id hNew
    show Vacant (s.timer.tick.2.only _)
    rw [(tick_only (closed_ofId id s.timer)).state]
    exact (h.wheels id hNew).tick.2

/-- The timer takes over an id that is known. -/
theorem told_registerTask (h : s.Told) : (s.step .registerTask).Told := by
  rw [step]
  split
  · exact h
  next timerTask rest hEntry =>
    have hTold := h.entered timerTask (hEntry ▸ List.mem_cons_self)
    refine ⟨h.queued, fun task hMem => h.entered task (hEntry ▸ List.mem_cons_of_mem _ hMem),
      fun id hNew => ?_, h.timeouts⟩
    -- the id that goes into the wheels has its check
    have hNe : timerTask.mID ≠ id := fun hEq => hNew (hEq ▸ hTold)
    show Vacant ((s.timer.registerTask timerTask).only _)
    rw [registerTask_only_id hNe]
    exact h.wheels id hNew

/-- **One step.** -/
theorem Told.step (h : s.Told) (e : TaskEvent) : (s.step e).Told := by
  cases e with
  | accept connfd hostAndService => exact h.tells (accept_tells s connfd hostAndService)
  | stamp conn timestamp => exact h.aside ⟨rfl, rfl, rfl, rfl, rfl⟩
  | close conn => exact h.aside (removeConnection_aside s conn)
  | advance seconds => exact h.aside ⟨rfl, rfl, rfl, rfl, rfl⟩
  | tick => exact told_tick h
  | registerTask => exact told_registerTask h
  | timerWork now => exact (told_popped h).aside (timerWork_aside s now)

-- ---------------------------------------------------------------------------
-- The queue
-- ---------------------------------------------------------------------------

/-- What a tick rings comes in behind, and `timerWork` takes from the front. -/
theorem step_queue (s : TaskServer) (e : TaskEvent) :
    s.mTimeoutTaskIDQueue ++ s.rung e = s.taken e ++ (s.step e).mTimeoutTaskIDQueue := by
  cases e with
  | accept connfd hostAndService =>
    exact (List.append_nil _).trans (accept_tells s connfd hostAndService).queue.symm
  | close conn => exact (List.append_nil _).trans (removeConnection_aside s conn).queue.symm
  | tick => rfl
  | registerTask =>
    show _ ++ [] = (TaskServer.step s .registerTask).mTimeoutTaskIDQueue
    rw [List.append_nil, TaskServer.step]
    split <;> rfl
  | timerWork now =>
    rw [(timerWork_aside s now).queue]
    show s.mTimeoutTaskIDQueue ++ [] = s.mTimeoutTaskIDQueue.take 1 ++ s.mTimeoutTaskIDQueue.tail
    rw [List.append_nil, ← List.drop_one, List.take_append_drop]
  | stamp conn timestamp => exact List.append_nil _
  | advance seconds => exact List.append_nil _

/-- What is in the queue has its check. -/
theorem check_of_queued (hTold : s.Told) (h : s.Consistent) {id : String}
    (hQueued : id ∈ s.mTimeoutTaskIDQueue) : ∃ task c, s.mTimerTasks.lookup id = some task ∧
      s.connections[task.registeredFor]? = some c ∧ c.taskID = some id ∧
      task.op = ⟨s.HEARTBEAT_TIMEOUT_IN_SECONDS, s.getName c⟩ := by
  -- known ids are looked up, and `Consistent` leads from the check to its connection
  obtain ⟨p, hp, hID⟩ := List.mem_map.mp (hTold.queued id hQueued)
  have hSome : (s.mTimerTasks.lookup id).isSome := List.lookup_isSome_iff.mpr ⟨p, hp, by simp [hID]⟩
  obtain ⟨task, hTask⟩ := Option.isSome_iff_exists.mp hSome
  obtain ⟨l₁, l₂, hTasks, -⟩ := List.lookup_eq_some_iff.mp hTask
  have hIn : (id, task) ∈ s.mTimerTasks := by
    rw [hTasks]
    exact List.mem_append_right _ List.mem_cons_self
  obtain ⟨c, hc, hTaskID, hName⟩ := h.tasks (id, task) hIn
  have hTimeout := hTold.timeouts (id, task) hIn
  obtain ⟨⟨timeout, name⟩, conn⟩ := task
  dsimp only at hName hTimeout
  subst hName hTimeout
  exact ⟨_, c, hTask, hc, hTaskID, rfl⟩

/-- What a check of an open connection comes to. -/
theorem closing_of_open (h : s.Consistent) {id : String} {task : HeartbeatTask}
    {c : AcceptedConnection} (hHead : s.mTimeoutTaskIDQueue.head? = some id)
    (hTask : s.mTimerTasks.lookup id = some task)
    (hc : s.connections[task.registeredFor]? = some c)
    (hOp : task.op = ⟨s.HEARTBEAT_TIMEOUT_IN_SECONDS, s.getName c⟩) (hOpen : c.isOpen = true)
    (now : BitVec 64) : s.closing now =
      if timedOut s.HEARTBEAT_TIMEOUT_IN_SECONDS now c.mCommunicationTimestamp then
        some (task, task.registeredFor) else none := by
  -- while a connection is open, its name leads to it
  have hFound := h.found _ c hc hOpen
  have hGet : s.getConnPtrRef (s.getName c) =
      some ⟨Message.literal c.hostAndService, c.mCommunicationTimestamp⟩ := by
    rw [getConnPtrRef, hFound, Option.bind_some, hc]
    rfl
  have hCall : .activeClose (s.getName c) false ∈
        s.kind.checkHeartbeat task.op s.getConnPtrRef now ↔
      timedOut s.HEARTBEAT_TIMEOUT_IN_SECONDS now c.mCommunicationTimestamp = true := by
    rw [hOp]
    refine (activeClose_mem_checkHeartbeat s.kind).trans ?_
    rw [hGet]
    constructor
    · rintro ⟨_, hSame, hTimedOut⟩
      cases hSame
      exact hTimedOut
    · exact fun hTimedOut => ⟨_, rfl, hTimedOut⟩
  unfold closing
  rw [hHead]
  simp only [Option.bind_eq_bind, Option.bind_some, hTask]
  rw [hOp] at hCall ⊢
  simp only [hFound, Option.bind_some]
  exact if_congr hCall rfl rfl

/-- An open connection is closed, and stays where it is in the list. -/
theorem removeConnection_of_open {conn : Nat} {c : AcceptedConnection}
    (hc : s.connections[conn]? = some c) (hOpen : c.isOpen = true) :
    (s.removeConnection conn).connections = s.connections.set conn { c with isOpen := false } := by
  unfold removeConnection
  rw [hc]
  dsimp only
  rw [if_pos hOpen]
  dsimp only
  rw [List.modify_eq_set_getElem?, hc]
  rfl

/-- **A turn of `timerWork`**: the check it finds is that of the connection it was made for. -/
theorem checks_its_own (hTold : s.Told) (h : s.Consistent) (e : TaskEvent) :
    s.ChecksItsOwn e := by
  rintro now rfl id hHead
  obtain ⟨task, c, hTask, hc, hTaskID, hOp⟩ :=
    check_of_queued hTold h (List.mem_of_mem_head? hHead)
  refine ⟨task.registeredFor, c, ⟨task, hTask, rfl⟩, hc, hTaskID, fun hOpen => ?_⟩
  have hClosing := closing_of_open h hHead hTask hc hOp hOpen now
  show (s.timerWork now).connections = _
  unfold timerWork
  cases hTimedOut : timedOut s.HEARTBEAT_TIMEOUT_IN_SECONDS now c.mCommunicationTimestamp with
  | true =>
    -- the check closes the connection of that name, which is its own
    rw [hTimedOut, if_pos rfl] at hClosing
    rw [hClosing]
    exact removeConnection_of_open
      (s := { s with mTimeoutTaskIDQueue := s.mTimeoutTaskIDQueue.tail }) hc hOpen
  | false =>
    rw [hTimedOut, if_neg Bool.false_ne_true] at hClosing
    rw [hClosing]
    have hSame : { c with isOpen := !false } = c := by rw [Bool.not_false, ← hOpen]
    rw [hSame]
    obtain ⟨hLt, hGet⟩ := List.getElem?_eq_some_iff.mp hc
    exact (hGet ▸ (List.set_getElem_self hLt).symm)

end

/-- **From the wheel to the close.** In every run of a server what the wheel rings goes through the
queue to `timerWork`, in order: nothing is lost, and nothing comes twice. Each id that `timerWork`
takes has its check, and leads to the connection it was given to. If that is still open, it is
closed exactly if it has timed out.

A connection is accepted in one step here: no thread is to handle its events, look it up or check
it until `newConnectionFunc` has set it up. -/
theorem rings_checked (kind : ServerKind) (mServName : String) (timeout : BitVec 64)
    (linked : Bool) (seconds : Int) (es : List TaskEvent) :
    outputs step rung (init kind mServName timeout linked seconds) es =
        outputs step taken (init kind mServName timeout linked seconds) es ++
          (final step (init kind mServName timeout linked seconds) es).mTimeoutTaskIDQueue ∧
      Each step ChecksItsOwn (init kind mServName timeout linked seconds) es := by
  have hQueue := outputs_queue step_queue (init kind mServName timeout linked seconds) es
  have hAlways : Always step (fun s => s.Told ∧ s.Consistent)
      (init kind mServName timeout linked seconds) es :=
    always_of_step (fun s e h => ⟨h.1.step e, h.2.step e⟩)
      ⟨told_init kind mServName timeout linked seconds,
        init_consistent kind mServName timeout linked seconds⟩
  have hEach : Each step (fun _ _ => True) (init kind mServName timeout linked seconds) es :=
    each_of_forall fun _ _ => trivial
  exact ⟨hQueue, hEach.imp_of_always hAlways fun s e h _ => checks_its_own h.1 h.2 e⟩

end TaskServer

end WarringServer.Server
