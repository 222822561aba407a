import WarringServer.Lib.Run
import Mathlib.Logic.Function.Basic

/-!
# TimeWheelTimer — three wheels of timer nodes

Model of `Base/utility/Timer.h` and `Timer.cpp`. The timer has a wheel of 60 second
slots, one of 60 minute slots and one of 24 hour slots, kept as the slots 0 to 143 of
`mTimeWheel`. A tick is one turn of the loop in `tick()`; what it runs is returned as
a list of firings.

Ticks and registrations come from two threads and are taken as atomic, in any order.
A task function is known by a number. `size_t` counts are `Nat`: the hours of the clock
and of a delay do not come near `2 ^ 64`.
-/

namespace WarringServer.Utility

/-- A `std::function<void()>`, by a number of its own. -/
abbrev Callback := Nat

/-- One run of a task function. -/
structure Firing where
  id : String
  task : Callback
deriving Repr, DecidableEq

-- ---------------------------------------------------------------------------
-- Tasks and nodes
-- ---------------------------------------------------------------------------

/-- `TimerTask`. Its constructor normalises minutes and seconds. -/
structure TimerTask where
  mHours : Nat
  mMinutes : Nat
  mSeconds : Nat
  mCycleNumber : Int
  mID : String
  mTask : Option Callback
  minutes_lt : mMinutes < 60
  seconds_lt : mSeconds < 60
deriving DecidableEq

namespace TimerTask

/-- The constructor. -/
def make (hrs mins secs : Nat) (cycNum : Int) (id : String) (task : Option Callback) :
    TimerTask where
  mCycleNumber := cycNum
  mID := id
  mTask := task
  -- each unit takes the carry of the one below
  mSeconds := secs % 60
  mMinutes := (mins + secs / 60) % 60
  mHours := hrs + (mins + secs / 60) / 60
  minutes_lt := Nat.mod_lt _ (by decide)
  seconds_lt := Nat.mod_lt _ (by decide)

/-- The delay in seconds. -/
def delay (t : TimerTask) : Nat := 3600 * t.mHours + 60 * t.mMinutes + t.mSeconds

/-- What `repeatTimerTask` makes of a registered task: one of a number of cycles
fewer, if they are numbered. -/
def countDown (t : TimerTask) : TimerTask :=
  if t.mCycleNumber > 0 then { t with mCycleNumber := t.mCycleNumber - 1 } else t

@[simp] theorem countDown_mID (t : TimerTask) : t.countDown.mID = t.mID := by
  unfold countDown
  split <;> rfl

@[simp] theorem countDown_mTask (t : TimerTask) : t.countDown.mTask = t.mTask := by
  unfold countDown
  split <;> rfl

@[simp] theorem countDown_mSeconds (t : TimerTask) : t.countDown.mSeconds = t.mSeconds := by
  unfold countDown
  split <;> rfl

@[simp] theorem countDown_mMinutes (t : TimerTask) : t.countDown.mMinutes = t.mMinutes := by
  unfold countDown
  split <;> rfl

@[simp] theorem countDown_mHours (t : TimerTask) : t.countDown.mHours = t.mHours := by
  unfold countDown
  split <;> rfl

@[simp] theorem countDown_delay (t : TimerTask) : t.countDown.delay = t.delay := by
  simp only [delay, countDown_mSeconds, countDown_mMinutes, countDown_mHours]

/-- From a delay to a time of the clock. The carry of the seconds reaches the hours,
but not the minutes. -/
def offset (t : TimerTask) (hrs mins secs : Nat) : TimerTask :=
  let carryMin := (t.mSeconds + secs) / 60
  let carryHr := (t.mMinutes + mins + carryMin) / 60
  { t with
    mHours := t.mHours + (hrs + carryHr)
    mMinutes := (t.mMinutes + mins) % 60
    mSeconds := (t.mSeconds + secs) % 60
    minutes_lt := Nat.mod_lt _ (by decide)
    seconds_lt := Nat.mod_lt _ (by decide) }

end TimerTask

/-- `TimerNode`. The flags say which parts of the time are not zero. -/
structure TimerNode where
  mTimerTask : TimerTask
  mHasSeconds : Bool
  mHasMinutes : Bool
  mHasHours : Bool
  mRound : Nat
  hasSeconds_eq : mHasSeconds = decide (mTimerTask.mSeconds > 0)
  hasMinutes_eq : mHasMinutes = decide (mTimerTask.mMinutes > 0)
  hasHours_eq : mHasHours = decide (mTimerTask.mHours > 0)
deriving DecidableEq

namespace TimerNode

/-- The constructor. -/
def make (timerTask : TimerTask) : TimerNode where
  mTimerTask := timerTask
  mHasSeconds := decide (timerTask.mSeconds > 0)
  mHasMinutes := decide (timerTask.mMinutes > 0)
  mHasHours := decide (timerTask.mHours > 0)
  mRound := if timerTask.mHours ≥ 24 then timerTask.mHours / 24 else 0
  hasSeconds_eq := rfl
  hasMinutes_eq := rfl
  hasHours_eq := rfl

/-- `subRound`, where it does something. -/
def subRound (n : TimerNode) : TimerNode := { n with mRound := n.mRound - 1 }

def getId (n : TimerNode) : String := n.mTimerTask.mID
def getCycNum (n : TimerNode) : Int := n.mTimerTask.mCycleNumber
def getSeconds (n : TimerNode) : Nat := n.mTimerTask.mSeconds
def getMinutes (n : TimerNode) : Nat := n.mTimerTask.mMinutes

/-- `if (taskf) taskf();` -/
def run (n : TimerNode) : List Firing :=
  match n.mTimerTask.mTask with
  | some taskf => [⟨n.getId, taskf⟩]
  | none => []

end TimerNode

-- ---------------------------------------------------------------------------
-- The timer
-- ---------------------------------------------------------------------------

def mSecondSlotsNum : Nat := 60
def mMinuteSlotsNum : Nat := 60
def mHourSlotsNum : Nat := 24

/-- `TimeWheelTimer`. Tasks are registered under their id. -/
@[ext] structure TimeWheelTimer where
  mSeconds : Nat
  mMinutes : Nat
  mHours : Nat
  mTimeWheel : Nat → List TimerNode
  mRegisteredTasks : String → Option TimerTask
  registered_id : ∀ id task, mRegisteredTasks id = some task → task.mID = id

namespace TimeWheelTimer

/-- The constructor. -/
def create : TimeWheelTimer where
  mSeconds := 0
  mMinutes := 0
  mHours := 0
  mTimeWheel _ := []
  mRegisteredTasks _ := none
  registered_id _ _ h := nomatch h

/-- `mTimeWheel.at(slotNo)->push_back(node)` -/
def push (t : TimeWheelTimer) (slotNo : Nat) (node : TimerNode) : TimeWheelTimer :=
  { t with mTimeWheel := Function.update t.mTimeWheel slotNo (t.mTimeWheel slotNo ++ [node]) }

def addTimerNodeFor (t : TimeWheelTimer) (timerTask : TimerTask) : TimeWheelTimer :=
  -- the delay, before `offset` turns it into a time of the clock
  let hours := timerTask.mHours
  let minutes := timerTask.mMinutes
  let seconds := timerTask.mSeconds
  if hours = 0 ∧ minutes = 0 ∧ seconds = 0 then
    t
  else
    -- relative slots: no unit sees the carry of the one below
    let hrSlotNo := (hours + t.mHours - 1) % mHourSlotsNum
    let minSlotNo := (minutes + t.mMinutes - 1) % mMinuteSlotsNum
    let secSlotNo := (seconds + t.mSeconds) % mSecondSlotsNum
    let timerNode := TimerNode.make (timerTask.offset t.mHours t.mMinutes t.mSeconds)
    if hours ≠ 0 then
      t.push (hrSlotNo + mSecondSlotsNum + mMinuteSlotsNum) timerNode
    else if minutes ≠ 0 then
      t.push (minSlotNo + mSecondSlotsNum) timerNode
    else
      t.push secSlotNo timerNode

def eraseTimerTask (t : TimeWheelTimer) (key : String) : TimeWheelTimer :=
  { t with
    mRegisteredTasks := Function.update t.mRegisteredTasks key none
    registered_id := by
      intro id task h
      by_cases hKey : id = key
      · rw [hKey, Function.update_self] at h
        cases h
      · rw [Function.update_of_ne hKey] at h
        exact t.registered_id id task h }

/-- A task stored under its id. -/
def setTask (t : TimeWheelTimer) (task : TimerTask) : TimeWheelTimer :=
  { t with
    mRegisteredTasks := Function.update t.mRegisteredTasks task.mID (some task)
    registered_id := by
      intro id task' h
      by_cases hKey : id = task.mID
      · rw [hKey, Function.update_self, Option.some.injEq] at h
        rw [hKey, h]
      · rw [Function.update_of_ne hKey] at h
        exact t.registered_id id task' h }

/-- `mRegisteredTasks.insert`, which keeps an entry that is there. -/
def insertTask (t : TimeWheelTimer) (task : TimerTask) : TimeWheelTimer :=
  match t.mRegisteredTasks task.mID with
  | some _ => t
  | none => t.setTask task

/-- The registered task counts down in place (its id is `key`) and gets a new node. -/
def repeatTimerTask (t : TimeWheelTimer) (key : String) : TimeWheelTimer :=
  match t.mRegisteredTasks key with
  | some task => (t.setTask task.countDown).addTimerNodeFor task.countDown
  | none => t

/-- The body of the loop in `registerTask`, for a task it has popped. -/
def registerTask (t : TimeWheelTimer) (timerTask : TimerTask) : TimeWheelTimer :=
  let cycNum := timerTask.mCycleNumber
  if cycNum = 0 then
    -- no cycles left: the way a caller takes a task out
    t.eraseTimerTask timerTask.mID
  else if cycNum < 0 ∨ cycNum > 1 then
    (t.insertTask timerTask).addTimerNodeFor timerTask
  else
    t.addTimerNodeFor timerTask

-- ---------------------------------------------------------------------------
-- Checking a slot
-- ---------------------------------------------------------------------------

/-! The loops of the `check` functions erase each node of the slot or, in the hour wheel,
step over it. Nothing is pushed to the slot while it is walked (`slotFor_ne` for the
second wheel; the others push to lower wheels), so a loop visits the nodes the slot held
at its start: they are taken out at once, and those that stay are pushed back. -/

def clear (t : TimeWheelTimer) (slotNo : Nat) : TimeWheelTimer :=
  { t with mTimeWheel := Function.update t.mTimeWheel slotNo [] }

/-- `checkSecondWheel`, behind the call of the task function. -/
def expireNode (t : TimeWheelTimer) (node : TimerNode) : TimeWheelTimer :=
  let cycNum := node.getCycNum
  if cycNum = 1 then
    -- a one-shot task has no entry, so this is the last of a number of cycles
    t.eraseTimerTask node.getId
  else if cycNum > 1 ∨ cycNum < 0 then
    t.repeatTimerTask node.getId
  else
    t

def checkSecondWheel (t : TimeWheelTimer) (slotNo : Nat) : List Firing × TimeWheelTimer :=
  let nodes := t.mTimeWheel slotNo
  (nodes.flatMap TimerNode.run, nodes.foldl expireNode (t.clear slotNo))

/-- `checkMinuteWheel` on a node: it runs, or moves on to its second slot. At this point
`mSeconds` is 60. -/
def cascadeMinute (t : TimeWheelTimer) (node : TimerNode) : TimeWheelTimer :=
  if !node.mHasSeconds then
    -- the node has run and is gone, whatever its cycle number
    t
  else
    t.push ((node.getSeconds + t.mSeconds) % t.mSeconds) (TimerNode.make node.mTimerTask)

def checkMinuteWheel (t : TimeWheelTimer) (slotNo : Nat) : List Firing × TimeWheelTimer :=
  let nodes := t.mTimeWheel slotNo
  (nodes.flatMap fun node => if !node.mHasSeconds then node.run else [],
    nodes.foldl cascadeMinute (t.clear slotNo))

/-- `checkHourWheel` on a node: it waits for another round, moves on to its minute or
second slot, or runs. At this point `mSeconds` is 0 and `mMinutes` is 60. -/
def cascadeHour (slotNo : Nat) (t : TimeWheelTimer) (node : TimerNode) : TimeWheelTimer :=
  if node.mRound = 0 then
    if node.mHasMinutes then
      t.push ((node.getMinutes + t.mMinutes) % mMinuteSlotsNum + mSecondSlotsNum - 1)
        (TimerNode.make node.mTimerTask)
    else if node.mHasSeconds then
      -- the minute of the time is 0, so it comes with the hour
      t.push ((node.getSeconds + t.mSeconds) % mSecondSlotsNum) (TimerNode.make node.mTimerTask)
    else
      t
  else
    t.push slotNo node.subRound

def checkHourWheel (t : TimeWheelTimer) (slotNo : Nat) : List Firing × TimeWheelTimer :=
  let nodes := t.mTimeWheel slotNo
  (nodes.flatMap fun node =>
      if node.mRound = 0 ∧ !node.mHasMinutes ∧ !node.mHasSeconds then node.run else [],
    nodes.foldl (cascadeHour slotNo) (t.clear slotNo))

-- ---------------------------------------------------------------------------
-- Ticks
-- ---------------------------------------------------------------------------

def setClock (t : TimeWheelTimer) (seconds minutes hours : Nat) : TimeWheelTimer :=
  { t with mSeconds := seconds, mMinutes := minutes, mHours := hours }

/-- The block of `tick` for a full hour. -/
def tickHour (t : TimeWheelTimer) : List Firing × TimeWheelTimer :=
  if t.mMinutes = mMinuteSlotsNum then
    let (runs, t) :=
      t.checkHourWheel (t.mHours % mHourSlotsNum + mMinuteSlotsNum + mSecondSlotsNum)
    (runs, t.setClock 0 0 (t.mHours + 1))
  else
    ([], t)

/-- The block of `tick` for a full minute. -/
def tickMinute (t : TimeWheelTimer) : List Firing × TimeWheelTimer :=
  if t.mSeconds = mSecondSlotsNum then
    let (runs, t) := t.checkMinuteWheel (t.mMinutes + mSecondSlotsNum)
    -- the hour wheel is checked at second 0 and minute 60
    let (runs', t) := (t.setClock 0 (t.mMinutes + 1) t.mHours).tickHour
    (runs ++ runs', t)
  else
    ([], t)

/-- One turn of the loop in `tick`. -/
def tick (t : TimeWheelTimer) : List Firing × TimeWheelTimer :=
  let (runs, t) := t.checkSecondWheel t.mSeconds
  -- the minute wheel is checked at second 60
  let (runs', t) := (t.setClock (t.mSeconds + 1) t.mMinutes t.mHours).tickMinute
  (runs ++ runs', t)

end TimeWheelTimer

-- ---------------------------------------------------------------------------
-- Runs
-- ---------------------------------------------------------------------------

inductive TimerEvent where
  | tick
  | register (timerTask : TimerTask)
deriving DecidableEq

namespace TimeWheelTimer

def step (t : TimeWheelTimer) : TimerEvent → TimeWheelTimer
  | .tick => t.tick.2
  | .register timerTask => t.registerTask timerTask

end TimeWheelTimer

/-- The ticks among the events. -/
def ticks (es : List TimerEvent) : Nat := es.count .tick

/-- An event does not register the id. -/
def TimerEvent.Other (id : String) : TimerEvent → Prop
  | .tick => True
  | .register timerTask => timerTask.mID ≠ id

/-- An event does not register the task function. -/
def TimerEvent.OtherTask (f : Callback) : TimerEvent → Prop
  | .tick => True
  | .register timerTask => timerTask.mTask ≠ some f

end WarringServer.Utility
