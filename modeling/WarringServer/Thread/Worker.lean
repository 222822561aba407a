import Mathlib.Data.List.Basic
import Mathlib.Tactic.Common

/-!
# The worker threads of the pool

`RThread::work` moves tasks from the external queue, which all workers share, to a local
one, and runs them from there. Three paths lead from one queue to the other: a wait for
one task, a `pop` of one and a `popN` of a batch, the last two chosen by how full the
local queue is. A controller thread changes flags and links of a worker while it runs.

The model goes statement by statement, under sequential consistency: `Pc` is where the
worker stands, `Worker.step` its next statement, `Worker.execute` one statement of a
command. A queue operation holds the lock of its queue, and is one step.

* `Line.Move` — what a step can do to the tasks: they go along one line, from the external
  queue to the ones that are run;
* `Line.Move.line`, `Line.Move.accounted` — no task leaves the line;
* `Worker.step_move` — every step of `work` is such a move.

Results of tasks (`mCaptureFuture`, `mResultsQueuePtr`) are left out.
-/

namespace WarringServer.Thread

/-- The number of the push that brought the task. -/
abbrev Task := Nat

-- ---------------------------------------------------------------------------
-- The state of a worker
-- ---------------------------------------------------------------------------

/-- Where `work` stands: before the statement of that name. -/
inductive Pc where
  /-- `mRunning = true` -/
  | start
  /-- `while (mRunning)` -/
  | loop
  /-- `mCond.wait(..)` -/
  | pause
  /-- `p = mExternalTasksPtr.lock()` -/
  | lock
  /-- `if (!mTasks.empty())`, and `if (!p) return` on the other side -/
  | test
  /-- `mTasks.pop(taskWithFut)`, in the loop or in the drain -/
  | pop (drain : Bool)
  /-- `taskWithFut.mFunc()`, with what the pop has returned -/
  | invoke (drain popped : Bool)
  /-- `p->waitAndPop(taskWithFut, ..)` in `addTasks` -/
  | waitAndPop
  /-- `mTasks.push(taskWithFut)` in `addTasks`, after a wait or not -/
  | push (wait : Bool) (task : Task)
  | addByLevel
  /-- `addTasks(p, false, n)` -/
  | addTasks (n : Nat)
  /-- `p->pop(taskWithFut)` in `addTasks` -/
  | popOne
  /-- `p->popN(temp, x)` -/
  | popN (x : Nat)
  /-- The loop that empties `temp`. -/
  | pushTemp (temp : List Task)
  /-- `if (mWipe)` -/
  | wipe
  /-- `while (!mTasks.empty())` of the drain -/
  | drain
  /-- `mInactive = true` -/
  | inactive
  | returned
  deriving DecidableEq, Repr

/-- A call of `taskWithFut.mFunc`: the task the variable holds, `none` before the first
successful pop, and whether the pop before the call returned one. -/
structure Invocation where
  task : Option Task
  popped : Bool
  deriving DecidableEq, Repr

/-- The task of a call that followed a successful pop. -/
def Invocation.fresh (i : Invocation) : Option Task := if i.popped then i.task else none

structure Worker where
  mRunning : Bool
  mStop : Bool
  mInactive : Bool
  mWipe : Bool
  mMaxLoadSize : Nat
  mMiddleweight : Nat
  mLightweight : Nat
  mTasks : List Task
  /-- `mExternalTasksPtr` can be locked. -/
  linked : Bool
  pc : Pc
  /-- The variable `p` of `work` is not null. -/
  p : Bool
  taskWithFut : Option Task
  invoked : List Invocation
  /-- The tasks pushed to `mTasks`, in order. -/
  moved : List Task
  deriving DecidableEq, Repr

/-- `RTHREAD_MAX_LOAD_NUMBER()` -/
def rthreadMaxLoadNumber : Nat := 10

/-- How `loadRatio` compares with `mLowpoint` and `mHighpoint`. -/
inductive Level where
  | low
  | middle
  /-- Also where no comparison holds, the ratio of an empty queue without a maximum. -/
  | high
  deriving DecidableEq, Repr

/-- The comparisons, without the rounding of floats. -/
def exactLevel (size maxLoadSize : Nat) : Level :=
  if 8 * maxLoadSize ≤ 10 * size then .high
  else if 2 * maxLoadSize ≤ 10 * size then .middle
  else .low

namespace Worker

/-- A thread that has just been started, its members as they are initialised. -/
def new : Worker where
  mRunning := false
  mStop := false
  mInactive := false
  mWipe := false
  mMaxLoadSize := rthreadMaxLoadNumber
  mMiddleweight := 2
  mLightweight := 1
  mTasks := []
  linked := false
  pc := .start
  p := false
  taskWithFut := none
  invoked := []
  moved := []

-- ---------------------------------------------------------------------------
-- The steps of `work`
-- ---------------------------------------------------------------------------

/-- The next statement, on the worker and the external queue. `timeout` ends a wait that
finds nothing; a wait that does not end leaves the state as it is. -/
def step (loadLevel : Nat → Nat → Level) (timeout : Bool) (w : Worker) (external : List Task) :
    Worker × List Task :=
  match w.pc with
  | .start => ({ w with mRunning := true, pc := .loop }, external)
  | .loop => ({ w with pc := if w.mRunning then .pause else .wipe }, external)
  | .pause => ({ w with pc := if w.mStop then .pause else .lock }, external)
  | .lock => ({ w with p := w.linked, pc := .test }, external)
  | .test =>
    ({ w with pc := if w.mTasks ≠ [] then .pop false else if w.p then .waitAndPop else .returned },
      external)
  | .pop drain =>
    -- the result of the pop is not looked at
    match w.mTasks with
    | [] => ({ w with pc := .invoke drain false }, external)
    | task :: tasks =>
      ({ w with mTasks := tasks, taskWithFut := some task, pc := .invoke drain true }, external)
  | .invoke drain popped =>
    ({ w with invoked := w.invoked ++ [⟨w.taskWithFut, popped⟩],
              pc := if drain then .drain else .addByLevel }, external)
  | .waitAndPop =>
    match external with
    | [] => ({ w with pc := if timeout then .addByLevel else .waitAndPop }, [])
    | task :: external => ({ w with pc := .push true task }, external)
  | .push wait task =>
    ({ w with mTasks := w.mTasks ++ [task], moved := w.moved ++ [task],
              pc := if wait then .addByLevel else .loop }, external)
  | .addByLevel =>
    if w.p then
      match loadLevel w.mTasks.length w.mMaxLoadSize with
      | .high => ({ w with pc := .loop }, external)
      | .middle => ({ w with pc := .addTasks w.mLightweight }, external)
      | .low => ({ w with pc := .addTasks w.mMiddleweight }, external)
    else ({ w with pc := .loop }, external)
  | .addTasks n =>
    ({ w with pc := if n < 1 then .loop else if n = 1 then .popOne
                    else .popN (min n (w.mMaxLoadSize / 2)) }, external)
  | .popOne =>
    match external with
    | [] => ({ w with pc := .loop }, [])
    | task :: external => ({ w with pc := .push false task }, external)
  | .popN x => ({ w with pc := .pushTemp (external.take x) }, external.drop x)
  | .pushTemp temp =>
    match temp with
    | [] => ({ w with pc := .loop }, external)
    | task :: temp =>
      ({ w with mTasks := w.mTasks ++ [task], moved := w.moved ++ [task], pc := .pushTemp temp },
        external)
  | .wipe => ({ w with pc := if w.mWipe then .drain else .inactive }, external)
  | .drain => ({ w with pc := if w.mTasks ≠ [] then .pop true else .inactive }, external)
  | .inactive => ({ w with mInactive := true, pc := .returned }, external)
  | .returned => (w, external)

end Worker

-- ---------------------------------------------------------------------------
-- Commands
-- ---------------------------------------------------------------------------

/-- A statement of the controller. `notify_one` wakes up a thread that waits, and is left out. -/
inductive Statement where
  | setStop (stop : Bool)
  /-- `mExternalTasksPtr = extPtr`, or `reset` -/
  | link (linked : Bool)
  /-- `mRunning = false` -/
  | halt
  /-- `mWipe = true` -/
  | setWipe
  /-- `mTasks.clear()` -/
  | clear
  | setMaxLoadSize (n : Nat)
  /-- `mMiddleweight = mMaxLoadSize / div` -/
  | divMiddleweight (div : Nat)
  | divLightweight (div : Nat)
  deriving DecidableEq, Repr

/-- What a controller does to a thread; `linked` says whether `extPtr` is a queue. -/
inductive Command where
  /-- The body of the constructor. -/
  | construct
  | linkExternalTasks
  | stop
  | resume (linked : Bool)
  | cancel
  | updateMember (maxLoadSize middleweightDiv lightweightDiv : Nat) (linked : Bool)
  | cancelWhenComplete
  deriving DecidableEq, Repr

def Command.statements : Command → List Statement
  | .construct => [.divMiddleweight 2, .divLightweight 4]
  | .linkExternalTasks => [.link true]
  | .stop => [.setStop true, .link false]
  | .resume linked => [.setStop false, .link linked]
  | .cancel => [.halt, .link false, .clear]
  | .updateMember maxLoadSize middleweightDiv lightweightDiv linked =>
    [.setMaxLoadSize maxLoadSize, .divMiddleweight middleweightDiv, .divLightweight lightweightDiv,
      .link linked]
  | .cancelWhenComplete => [.halt, .setWipe, .link false]

/-- A division by 0 would end the process (`SIGFPE`); that it gives 0 here lets such a run go on,
and what is said of all runs is said of it too. -/
def Worker.execute (w : Worker) : Statement → Worker
  | .setStop stop => { w with mStop := stop }
  | .link linked => { w with linked := linked }
  | .halt => { w with mRunning := false }
  | .setWipe => { w with mWipe := true }
  | .clear => { w with mTasks := [] }
  | .setMaxLoadSize n => { w with mMaxLoadSize := n }
  | .divMiddleweight div => { w with mMiddleweight := w.mMaxLoadSize / div }
  | .divLightweight div => { w with mLightweight := w.mMaxLoadSize / div }

-- ---------------------------------------------------------------------------
-- The line of tasks that ends in a worker
-- ---------------------------------------------------------------------------

/-- Where tasks can be, the oldest first: run, in the variable of `work`, in the local queue,
on the way to it, in the external queue. `moved` are those that have come to the local queue. -/
structure Line where
  ran : List Task
  current : List Task
  tasks : List Task
  transit : List Task
  external : List Task
  moved : List Task

/-- One worker's step on its line. -/
inductive Line.Move : Line → Line → Prop where
  | stay (l : Line) : Move l l
  | pop {l : Line} {task : Task} {tasks : List Task} (hCurrent : l.current = [])
      (hTasks : l.tasks = task :: tasks) : Move l { l with current := [task], tasks := tasks }
  | run (l : Line) : Move l { l with ran := l.ran ++ l.current, current := [] }
  | fetch {l : Line} (n : Nat) (hTransit : l.transit = []) :
      Move l { l with transit := l.external.take n, external := l.external.drop n }
  | push {l : Line} {task : Task} {transit : List Task} (hTransit : l.transit = task :: transit) :
      Move l { l with tasks := l.tasks ++ [task], transit := transit, moved := l.moved ++ [task] }

namespace Line

theorem Move.of_eq {l l' : Line} (h : l' = l) : Move l l' := h ▸ .stay l

/-- What the worker has. -/
def kept (l : Line) : List Task := l.ran ++ l.current ++ l.tasks ++ l.transit

variable {l l' : Line}

/-- **A move keeps the line**: what leaves one place is in the next one. -/
theorem Move.line (h : Move l l') : l'.kept ++ l'.external = l.kept ++ l.external := by
  rcases h with _ | ⟨hCurrent, hTasks⟩ | _ | ⟨n, hTransit⟩ | hTransit
  · rfl
  · simp [kept, hCurrent, hTasks]
  · simp [kept]
  · simp [kept, hTransit]
  · simp [kept, hTransit]

/-- What has come to the local queue is run, about to be run, or there. -/
def Accounted (l : Line) : Prop := l.moved = l.ran ++ l.current ++ l.tasks

theorem Move.accounted (h : Move l l') (hMoved : l.Accounted) : l'.Accounted := by
  unfold Accounted at hMoved ⊢
  rcases h with _ | ⟨hCurrent, hTasks⟩ | _ | ⟨n, hTransit⟩ | hTransit
  · exact hMoved
  · simp [hMoved, hCurrent, hTasks]
  · simp [hMoved]
  · exact hMoved
  · simp [hMoved]

/-- A worker only takes from the front of the external queue. -/
theorem Move.external_suffix (h : Move l l') : l'.external <:+ l.external := by
  rcases h with _ | ⟨hCurrent, hTasks⟩ | _ | ⟨n, hTransit⟩ | hTransit
  · exact List.suffix_rfl
  · exact List.suffix_rfl
  · exact List.suffix_rfl
  · exact List.drop_suffix n l.external
  · exact List.suffix_rfl

end Line

namespace Worker

/-- The tasks of the calls that followed a successful pop. -/
def ran (w : Worker) : List Task := w.invoked.filterMap Invocation.fresh

/-- The tasks of all calls. -/
def executed (w : Worker) : List Task := w.invoked.filterMap Invocation.task

/-- The task popped from the local queue and not yet run. -/
def current (w : Worker) : List Task :=
  match w.pc with
  | .invoke _ true => w.taskWithFut.toList
  | _ => []

/-- The transit variable of `addTasks`, or what is left of its batch. -/
def transit (w : Worker) : List Task :=
  match w.pc with
  | .push _ task => [task]
  | .pushTemp temp => temp
  | _ => []

def line (w : Worker) (external : List Task) : Line where
  ran := w.ran
  current := w.current
  tasks := w.mTasks
  transit := w.transit
  external := external
  moved := w.moved

/-- **Every step of `work` is a move.** -/
theorem step_move (loadLevel : Nat → Nat → Level) (timeout : Bool) (w : Worker)
    (external : List Task) :
    Line.Move (w.line external)
      ((w.step loadLevel timeout external).1.line (w.step loadLevel timeout external).2) := by
  unfold step
  rcases hPc : w.pc with _ | _ | _ | _ | _ | drain | ⟨drain, popped⟩ | _ | ⟨wait, task⟩ | _ | n |
    _ | x | temp | _ | _ | _ | _
  case pop =>
    rcases hTasks : w.mTasks with _ | ⟨task, tasks⟩
    · exact .of_eq (by simp [line, ran, current, transit, hPc, hTasks])
    · have hMove := Line.Move.pop (l := w.line external) (by simp [line, current, hPc]) hTasks
      simpa [line, ran, current, transit, hPc, hTasks] using hMove
  case invoke =>
    have hMove := Line.Move.run (w.line external)
    rcases popped with _ | _
    · rcases drain with _ | _
      all_goals simpa [line, ran, current, transit, hPc, Invocation.fresh] using hMove
    · rcases hTask : w.taskWithFut with _ | task
      all_goals
        rcases drain with _ | _
        all_goals simpa [line, ran, current, transit, hPc, hTask, Invocation.fresh] using hMove
  case waitAndPop =>
    rcases external with _ | ⟨task, external⟩
    · dsimp only
      split
      · exact .of_eq (by simp [line, ran, current, transit, hPc])
      · exact .of_eq (by simp [line, ran, current, transit, hPc])
    · have hMove := Line.Move.fetch (l := w.line (task :: external)) 1
        (by simp [line, transit, hPc])
      simpa [line, ran, current, transit, hPc] using hMove
  case push =>
    have hTransit : (w.line external).transit = task :: [] := by simp [line, transit, hPc]
    have hMove := Line.Move.push hTransit
    rcases wait with _ | _
    · simpa [line, ran, current, transit, hPc] using hMove
    · simpa [line, ran, current, transit, hPc] using hMove
  case popOne =>
    rcases external with _ | ⟨task, external⟩
    · exact .of_eq (by simp [line, ran, current, transit, hPc])
    · have hMove := Line.Move.fetch (l := w.line (task :: external)) 1
        (by simp [line, transit, hPc])
      simpa [line, ran, current, transit, hPc] using hMove
  case popN =>
    have hMove := Line.Move.fetch (l := w.line external) x (by simp [line, transit, hPc])
    simpa [line, ran, current, transit, hPc] using hMove
  case pushTemp =>
    rcases temp with _ | ⟨task, temp⟩
    · exact .of_eq (by simp [line, ran, current, transit, hPc])
    · have hTransit : (w.line external).transit = task :: temp := by simp [line, transit, hPc]
      have hMove := Line.Move.push hTransit
      simpa [line, ran, current, transit, hPc] using hMove
  -- the rest of the statements change the place in the code, or a flag
  case addByLevel =>
    dsimp only
    split
    · split
      all_goals exact .of_eq (by simp [line, ran, current, transit, hPc])
    · exact .of_eq (by simp [line, ran, current, transit, hPc])
  case test =>
    dsimp only
    split
    · exact .of_eq (by simp [line, ran, current, transit, hPc])
    · split
      all_goals exact .of_eq (by simp [line, ran, current, transit, hPc])
  case addTasks =>
    dsimp only
    split
    · exact .of_eq (by simp [line, ran, current, transit, hPc])
    · split
      all_goals exact .of_eq (by simp [line, ran, current, transit, hPc])
  case loop | pause | wipe | drain =>
    dsimp only
    split
    all_goals exact .of_eq (by simp [line, ran, current, transit, hPc])
  case start | lock | inactive =>
    exact .of_eq (by simp [line, ran, current, transit, hPc])
  case returned => exact .stay _

end Worker

end WarringServer.Thread
