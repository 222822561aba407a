import WarringServer.Utility.Repeat
import Mathlib.Algebra.Group.Nat.Defs

/-!
# Time arithmetic and the indices of the wheels

The arithmetic of `TimerTask`, and the index computations of the wheels in `size_t`, between
any two statements of `tick`.

* `make_delay` — the constructor keeps the time it is given;
* `offset_delay` / `timerTask_arithmetic_iff` — `offset` adds a reading of the clock exactly
  if the seconds have no carry;
* `statements_safe` — what the statements of a run use: slots inside the wheel that is meant,
  divisors other than zero, and one subtraction that can wrap;
* `tick_of_statements` — the statements of a turn of the loop, with nothing between them, are
  `TimeWheelTimer.tick`.
-/

namespace WarringServer.Utility

open Run
open TimeWheelTimer (SameClock)

-- ---------------------------------------------------------------------------
-- The digits of a time
-- ---------------------------------------------------------------------------

/-- `val(h, m, s)`: a time in seconds. -/
def val (hrs mins secs : Nat) : Nat := 3600 * hrs + 60 * mins + secs

namespace TimerTask

section

variable {t : TimerTask} {hrs mins secs : Nat} {cycNum : Int} {id : String}
  {task : Option Callback}

/-- The constructor makes a normalised task of the time it is given. -/
def Constructs (hrs mins secs : Nat) (cycNum : Int) (id : String) (task : Option Callback) :
    Prop :=
  let t := make hrs mins secs cycNum id task
  t.mMinutes < 60 ∧ t.mSeconds < 60 ∧ val t.mHours t.mMinutes t.mSeconds = val hrs mins secs

/-- `offset` makes a normalised task of the sum of the times. -/
def OffsetAdds (t : TimerTask) (hrs mins secs : Nat) : Prop :=
  let t' := t.offset hrs mins secs
  t'.mMinutes < 60 ∧ t'.mSeconds < 60 ∧
    val t'.mHours t'.mMinutes t'.mSeconds =
      val t.mHours t.mMinutes t.mSeconds + val hrs mins secs

theorem make_delay (hrs mins secs : Nat) (cycNum : Int) (id : String)
    (task : Option Callback) : (make hrs mins secs cycNum id task).delay = val hrs mins secs := by
  show 3600 * (hrs + (mins + secs / 60) / 60) + 60 * ((mins + secs / 60) % 60) + secs % 60 = _
  unfold val
  omega

theorem make_constructs : Constructs hrs mins secs cycNum id task :=
  ⟨(make hrs mins secs cycNum id task).minutes_lt, (make hrs mins secs cycNum id task).seconds_lt,
    make_delay hrs mins secs cycNum id task⟩

/-- The delay behind `offset`. The carry of the seconds is missing from the minutes; where
they stand at 59 it has reached the hours. -/
theorem offset_delay (t : TimerTask) (hrs mins : Nat) {secs : Nat} (hSecs : secs < 60) :
    (t.offset hrs mins secs).delay + 60 * ((t.mSeconds + secs) / 60) =
      t.delay + val hrs mins secs +
        if 60 ≤ t.mSeconds + secs ∧ (t.mMinutes + mins) % 60 = 59 then 3600 else 0 := by
  have hSeconds : t.mSeconds < 60 := t.seconds_lt
  show 3600 * (t.mHours + (hrs + (t.mMinutes + mins + (t.mSeconds + secs) / 60) / 60)) +
      60 * ((t.mMinutes + mins) % 60) + (t.mSeconds + secs) % 60 +
        60 * ((t.mSeconds + secs) / 60) = _
  unfold delay val
  split <;> omega

theorem offset_adds_iff (hSecs : secs < 60) :
    OffsetAdds t hrs mins secs ↔ t.mSeconds + secs < 60 := by
  have hDelay := offset_delay t hrs mins hSecs
  have hSeconds : t.mSeconds < 60 := t.seconds_lt
  have hSum : OffsetAdds t hrs mins secs ↔
      (t.offset hrs mins secs).delay = t.delay + val hrs mins secs :=
    ⟨fun h => h.2.2, fun h =>
      ⟨(t.offset hrs mins secs).minutes_lt, (t.offset hrs mins secs).seconds_lt, h⟩⟩
  rw [hSum]
  split at hDelay <;> omega

end

end TimerTask

/-- **The arithmetic of `TimerTask`**: the constructor keeps every time, `offset` adds the
reading of a clock exactly if the seconds have no carry. -/
theorem timerTask_arithmetic_iff (hrs mins secs : Nat) (cycNum : Int) (id : String)
    (task : Option Callback) (t : TimerTask) (h m s : Nat) (hs : s < 60) :
    (TimerTask.Constructs hrs mins secs cycNum id task ∧ t.OffsetAdds h m s) ↔
      t.mSeconds + s < 60 := by
  rw [TimerTask.offset_adds_iff hs]
  exact and_iff_right TimerTask.make_constructs

theorem timerTask_arithmetic_at_noon :
    (TimerTask.Constructs 1 90 3601 (-1) "a" none ∧
      (TimerTask.make 0 5 20 1 "b" none).OffsetAdds 12 0 39) ↔ 20 + 39 < 60 :=
  timerTask_arithmetic_iff 1 90 3601 (-1) "a" none (TimerTask.make 0 5 20 1 "b" none) 12 0 39
    (by decide)

/-- Half a minute, added at second 30: the full minute is lost. -/
theorem offset_loses_a_minute :
    ¬ ((∀ hrs mins secs cycNum id task,
        TimerTask.Constructs hrs mins secs cycNum id task) ∧
      ∀ (t : TimerTask) (h m s : Nat), m < 60 → s < 60 → t.OffsetAdds h m s) := by
  rintro ⟨-, hAll⟩
  have hAdds := hAll (TimerTask.make 0 0 30 1 "a" none) 0 0 30 (by decide) (by decide)
  exact absurd hAdds.2.2 (by decide)

-- ---------------------------------------------------------------------------
-- What the wheels are asked for
-- ---------------------------------------------------------------------------

/-- `size_t` counts modulo this. -/
def sizeCount : Nat := 2 ^ 64

/-- `a - b` of two `size_t`. -/
def sizeSub (a b : Nat) : Nat := (a + sizeCount - b) % sizeCount

inductive Wheel where
  | seconds
  | minutes
  | hours
deriving DecidableEq

/-- The slots of a wheel in `mTimeWheel`. -/
def Wheel.Has : Wheel → Nat → Prop
  | .seconds, slotNo => slotNo < 60
  | .minutes, slotNo => 60 ≤ slotNo ∧ slotNo < 120
  | .hours, slotNo => 120 ≤ slotNo ∧ slotNo < 144

/-- An operation of the source that is not safe for every argument. -/
inductive Use where
  /-- `mTimeWheel.at(slotNo)`, where a slot of the wheel is meant -/
  | access (wheel : Wheel) (slotNo : Nat)
  /-- a modulus with this divisor -/
  | modulus (divisor : Nat)
  /-- `a - b`, of a result that is used -/
  | sub (a b : Nat)
  /-- `hours + mHours - 1`, of a result that is used -/
  | subHour (hours mHours : Nat)
deriving DecidableEq

def Use.Safe : Use → Prop
  | .access wheel slotNo => slotNo < 144 ∧ wheel.Has slotNo
  | .modulus divisor => divisor ≠ 0
  | .sub a b => b ≤ a
  | .subHour hours mHours => 1 ≤ (hours + mHours) % sizeCount

/-! The functions of the timer over `size_t`, next to what they use, under the names they
have in the source. Hours may wrap; minutes and seconds stay at 60 or below (`InStep`), so
that their sums do not. -/

namespace WheelIndex

theorem minutes_mod_lt (t : TimerTask) (mins : Nat) : (t.mMinutes + mins) % 60 < 60 :=
  Nat.mod_lt _ (by decide)

theorem seconds_mod_lt (t : TimerTask) (secs : Nat) : (t.mSeconds + secs) % 60 < 60 :=
  Nat.mod_lt _ (by decide)

def offset (t : TimerTask) (hrs mins secs : Nat) : List Use × TimerTask :=
  let carryMin := (t.mSeconds + secs) / 60
  let carryHr := (t.mMinutes + mins + carryMin) / 60
  ([.modulus 60, .modulus 60],
    { t with
      mHours := (t.mHours + (hrs + carryHr)) % sizeCount
      mMinutes := (t.mMinutes + mins) % 60
      mSeconds := (t.mSeconds + secs) % 60
      minutes_lt := minutes_mod_lt t mins
      seconds_lt := seconds_mod_lt t secs })

def addTimerNodeFor (t : TimeWheelTimer) (timerTask : TimerTask) : List Use × TimeWheelTimer :=
  let hours := timerTask.mHours
  let minutes := timerTask.mMinutes
  let seconds := timerTask.mSeconds
  if hours = 0 ∧ minutes = 0 ∧ seconds = 0 then
    ([], t)
  else
    -- with no hours (or no minutes) the first two may have wrapped, and are not used
    let hrSlotNo := sizeSub ((hours + t.mHours) % sizeCount) 1 % mHourSlotsNum
    let minSlotNo := sizeSub (minutes + t.mMinutes) 1 % mMinuteSlotsNum
    let secSlotNo := (seconds + t.mSeconds) % mSecondSlotsNum
    let slotUses : List Use :=
      [.modulus mHourSlotsNum, .modulus mMinuteSlotsNum, .modulus mSecondSlotsNum]
    let (offsetUses, timerTask) := offset timerTask t.mHours t.mMinutes t.mSeconds
    let timerNode := TimerNode.make timerTask
    let (indexUses, slotNo) : List Use × Nat :=
      if hours ≠ 0 then
        let slotNo := hrSlotNo + mSecondSlotsNum + mMinuteSlotsNum
        ([.subHour hours t.mHours, .access .hours slotNo], slotNo)
      else if minutes ≠ 0 then
        let slotNo := minSlotNo + mSecondSlotsNum
        ([.sub (minutes + t.mMinutes) 1, .access .minutes slotNo], slotNo)
      else
        ([.access .seconds secSlotNo], secSlotNo)
    (slotUses ++ offsetUses ++ indexUses, t.push slotNo timerNode)

def repeatTimerTask (t : TimeWheelTimer) (key : String) : List Use × TimeWheelTimer :=
  match t.mRegisteredTasks key with
  | some task => addTimerNodeFor (t.setTask task.countDown) task.countDown
  | none => ([], t)

def registerTask (t : TimeWheelTimer) (timerTask : TimerTask) : List Use × TimeWheelTimer :=
  let cycNum := timerTask.mCycleNumber
  if cycNum = 0 then
    ([], t.eraseTimerTask timerTask.mID)
  else if cycNum < 0 ∨ cycNum > 1 then
    addTimerNodeFor (t.insertTask timerTask) timerTask
  else
    addTimerNodeFor t timerTask

/-- The loop over the nodes of a slot. -/
def walk (f : TimeWheelTimer → TimerNode → List Use × TimeWheelTimer) :
    List TimerNode → TimeWheelTimer → List Use × TimeWheelTimer
  | [], t => ([], t)
  | node :: nodes, t =>
    let (uses, t) := f t node
    let (uses', t) := walk f nodes t
    (uses ++ uses', t)

def expireNode (t : TimeWheelTimer) (node : TimerNode) : List Use × TimeWheelTimer :=
  let cycNum := node.getCycNum
  if cycNum = 1 then
    ([], t.eraseTimerTask node.getId)
  else if cycNum > 1 ∨ cycNum < 0 then
    repeatTimerTask t node.getId
  else
    ([], t)

def checkSecondWheel (t : TimeWheelTimer) (slotNo : Nat) : List Use × TimeWheelTimer :=
  let (uses, t) := walk expireNode (t.mTimeWheel slotNo) (t.clear slotNo)
  (.access .seconds slotNo :: uses, t)

def cascadeMinute (t : TimeWheelTimer) (node : TimerNode) : List Use × TimeWheelTimer :=
  if !node.mHasSeconds then
    ([], t)
  else
    let secSlotNo := (node.getSeconds + t.mSeconds) % t.mSeconds
    ([.modulus t.mSeconds, .access .seconds secSlotNo],
      t.push secSlotNo (TimerNode.make node.mTimerTask))

def checkMinuteWheel (t : TimeWheelTimer) (slotNo : Nat) : List Use × TimeWheelTimer :=
  let (uses, t) := walk cascadeMinute (t.mTimeWheel slotNo) (t.clear slotNo)
  (.access .minutes slotNo :: uses, t)

def cascadeHour (slotNo : Nat) (t : TimeWheelTimer) (node : TimerNode) :
    List Use × TimeWheelTimer :=
  if node.mRound = 0 then
    if node.mHasMinutes then
      let sum := (node.getMinutes + t.mMinutes) % mMinuteSlotsNum + mSecondSlotsNum
      let minSlotNo := sizeSub sum 1
      ([.modulus mMinuteSlotsNum, .sub sum 1, .access .minutes minSlotNo],
        t.push minSlotNo (TimerNode.make node.mTimerTask))
    else if node.mHasSeconds then
      let secSlotNo := (node.getSeconds + t.mSeconds) % mSecondSlotsNum
      ([.modulus mSecondSlotsNum, .access .seconds secSlotNo],
        t.push secSlotNo (TimerNode.make node.mTimerTask))
    else
      ([], t)
  else
    ([.sub node.mRound 1], t.push slotNo node.subRound)

def checkHourWheel (t : TimeWheelTimer) (slotNo : Nat) : List Use × TimeWheelTimer :=
  let (uses, t) := walk (cascadeHour slotNo) (t.mTimeWheel slotNo) (t.clear slotNo)
  (.access .hours slotNo :: uses, t)

-- ---------------------------------------------------------------------------
-- The statements of `tick`
-- ---------------------------------------------------------------------------

/-- The statement of the loop that comes next. -/
inductive Statement where
  | checkSecond
  | incSeconds
  | ifSeconds
  | checkMinute
  | resetSeconds
  | incMinutes
  | ifMinutes
  | checkHour
  | resetSecondsAgain
  | resetMinutes
  | incHours
deriving DecidableEq

/-- The timer with the thread of `tick` in front of a statement. -/
structure Ticking where
  timer : TimeWheelTimer
  next : Statement

def start : Ticking := ⟨.create, .checkSecond⟩

inductive Event where
  /-- the thread of `tick` runs a statement -/
  | statement
  /-- the other thread registers a task in between -/
  | register (timerTask : TimerTask)

/-- The next statement, on the timer. -/
def execute (t : TimeWheelTimer) : Statement → List Use × Ticking
  | .checkSecond =>
    let (uses, t) := checkSecondWheel t t.mSeconds
    (uses, ⟨t, .incSeconds⟩)
  | .incSeconds => ([], ⟨t.setClock (t.mSeconds + 1) t.mMinutes t.mHours, .ifSeconds⟩)
  | .ifSeconds => ([], ⟨t, if t.mSeconds = mSecondSlotsNum then .checkMinute else .checkSecond⟩)
  | .checkMinute =>
    let (uses, t) := checkMinuteWheel t (t.mMinutes + mSecondSlotsNum)
    (uses, ⟨t, .resetSeconds⟩)
  | .resetSeconds => ([], ⟨t.setClock 0 t.mMinutes t.mHours, .incMinutes⟩)
  | .incMinutes => ([], ⟨t.setClock t.mSeconds (t.mMinutes + 1) t.mHours, .ifMinutes⟩)
  | .ifMinutes => ([], ⟨t, if t.mMinutes = mMinuteSlotsNum then .checkHour else .checkSecond⟩)
  | .checkHour =>
    let (uses, t) :=
      checkHourWheel t (t.mHours % mHourSlotsNum + mMinuteSlotsNum + mSecondSlotsNum)
    (.modulus mHourSlotsNum :: uses, ⟨t, .resetSecondsAgain⟩)
  | .resetSecondsAgain => ([], ⟨t.setClock 0 t.mMinutes t.mHours, .resetMinutes⟩)
  | .resetMinutes => ([], ⟨t.setClock t.mSeconds 0 t.mHours, .incHours⟩)
  | .incHours => ([], ⟨t.setClock t.mSeconds t.mMinutes ((t.mHours + 1) % sizeCount), .checkSecond⟩)

def step (k : Ticking) : Event → List Use × Ticking
  | .statement => execute k.timer k.next
  | .register timerTask =>
    let (uses, t) := registerTask k.timer timerTask
    (uses, ⟨t, k.next⟩)

/-- The state behind an event. -/
def after (k : Ticking) (e : Event) : Ticking := (step k e).2

/-- What an event uses. -/
def uses (k : Ticking) (e : Event) : List Use := (step k e).1

-- ---------------------------------------------------------------------------
-- One function
-- ---------------------------------------------------------------------------

/-- The use is safe, or `hours + mHours` has wrapped to 0. -/
def Fits (mHours : Nat) (u : Use) : Prop :=
  u.Safe ∨ ∃ hours, u = .subHour hours mHours ∧ hours ≠ 0 ∧ (hours + mHours) % sizeCount = 0

/-- What is used fits, and the clock stands. -/
def Keeps (t : TimeWheelTimer) (r : List Use × TimeWheelTimer) : Prop :=
  (∀ u ∈ r.1, Fits t.mHours u) ∧ SameClock t r.2

section

variable {t t' : TimeWheelTimer} {u : Use} {us us' : List Use}

theorem Fits.of_safe {mHours : Nat} (h : u.Safe) : Fits mHours u := Or.inl h

theorem Keeps.of_safe (h : ∀ u ∈ us, u.Safe) (hClock : SameClock t t') : Keeps t (us, t') :=
  ⟨fun u hu => .of_safe (h u hu), hClock⟩

theorem Keeps.nil (hClock : SameClock t t') : Keeps t ([], t') :=
  .of_safe (by simp) hClock

theorem Keeps.cons {r : List Use × TimeWheelTimer} (hUse : u.Safe) (h : Keeps t r) :
    Keeps t (u :: r.1, r.2) := by
  refine ⟨fun u' hu' => ?_, h.2⟩
  rcases List.mem_cons.mp hu' with rfl | hu'
  · exact .of_safe hUse
  · exact h.1 u' hu'

/-- Two functions, one behind the other. -/
theorem Keeps.append {t'' : TimeWheelTimer} (h : Keeps t (us, t')) (h' : Keeps t' (us', t'')) :
    Keeps t (us ++ us', t'') := by
  refine ⟨fun u hu => ?_, h.2.trans h'.2⟩
  rcases List.mem_append.mp hu with hu | hu
  · exact h.1 u hu
  · exact h.2.2.2 ▸ h'.1 u hu

/-- From a timer with the same clock. -/
theorem Keeps.of_same {r : List Use × TimeWheelTimer} (hClock : SameClock t t')
    (h : Keeps t' r) : Keeps t r :=
  ⟨fun u hu => hClock.2.2 ▸ h.1 u hu, hClock.trans h.2⟩

/-- `hours + mHours - 1`, with the slot it gives. -/
theorem hour_fits {hours mHours : Nat} (h : hours ≠ 0) :
    ∀ u ∈ [Use.subHour hours mHours, .access .hours
      (sizeSub ((hours + mHours) % sizeCount) 1 % mHourSlotsNum + mSecondSlotsNum +
        mMinuteSlotsNum)], Fits mHours u := by
  have hSlot := Nat.mod_lt (sizeSub ((hours + mHours) % sizeCount) 1) (show 0 < 24 by decide)
  simp only [List.forall_mem_cons, List.not_mem_nil, false_imp_iff, implies_true, and_true]
  constructor
  · by_cases hFull : (hours + mHours) % sizeCount = 0
    · exact Or.inr ⟨hours, rfl, h, hFull⟩
    · exact .of_safe (Nat.one_le_iff_ne_zero.mpr hFull)
  · refine .of_safe ⟨?_, ?_, ?_⟩ <;>
      simp only [mHourSlotsNum, mSecondSlotsNum, mMinuteSlotsNum] <;> omega

theorem minute_safe {minutes mMinutes : Nat} (h : minutes ≠ 0) :
    ∀ u ∈ [Use.sub (minutes + mMinutes) 1, .access .minutes
      (sizeSub (minutes + mMinutes) 1 % mMinuteSlotsNum + mSecondSlotsNum)], u.Safe := by
  have hSlot := Nat.mod_lt (sizeSub (minutes + mMinutes) 1) (show 0 < 60 by decide)
  simp only [List.forall_mem_cons, List.not_mem_nil, false_imp_iff, implies_true, and_true]
  refine ⟨(show 1 ≤ minutes + mMinutes by omega), ?_, ?_, ?_⟩ <;>
    simp only [mSecondSlotsNum, mMinuteSlotsNum] <;> omega

theorem addTimerNodeFor_keeps (t : TimeWheelTimer) (timerTask : TimerTask) :
    Keeps t (addTimerNodeFor t timerTask) := by
  unfold addTimerNodeFor
  dsimp only [offset]
  split
  · exact .nil (.refl t)
  · have hDivisors : ∀ u ∈ [Use.modulus mHourSlotsNum, .modulus mMinuteSlotsNum,
        .modulus mSecondSlotsNum] ++ [Use.modulus 60, .modulus 60], u.Safe := by
      simp [Use.Safe, mHourSlotsNum, mMinuteSlotsNum, mSecondSlotsNum]
    refine (Keeps.of_safe hDivisors (.refl t)).append ?_
    -- the use of the slot depends on the largest unit that is not zero
    split
    · rename_i hHours
      exact ⟨hour_fits hHours, rfl, rfl, rfl⟩
    · split
      · rename_i hMinutes
        exact .of_safe (minute_safe hMinutes) ⟨rfl, rfl, rfl⟩
      · refine .of_safe ?_ ⟨rfl, rfl, rfl⟩
        simp only [List.mem_singleton, forall_eq]
        have hSlot := Nat.mod_lt (timerTask.mSeconds + t.mSeconds) (show 0 < 60 by decide)
        exact ⟨Nat.lt_trans hSlot (by decide), hSlot⟩

theorem repeatTimerTask_keeps (t : TimeWheelTimer) (key : String) :
    Keeps t (repeatTimerTask t key) := by
  unfold repeatTimerTask
  split
  · exact .of_same ⟨rfl, rfl, rfl⟩ (addTimerNodeFor_keeps _ _)
  · exact .nil (.refl t)

theorem insertTask_clock (t : TimeWheelTimer) (task : TimerTask) :
    SameClock t (t.insertTask task) := by
  unfold TimeWheelTimer.insertTask
  split <;> exact ⟨rfl, rfl, rfl⟩

theorem registerTask_keeps (t : TimeWheelTimer) (timerTask : TimerTask) :
    Keeps t (registerTask t timerTask) := by
  unfold registerTask
  dsimp only
  split
  · exact .nil ⟨rfl, rfl, rfl⟩
  · split
    · exact .of_same (insertTask_clock t timerTask) (addTimerNodeFor_keeps _ _)
    · exact addTimerNodeFor_keeps t timerTask

theorem walk_keeps {f : TimeWheelTimer → TimerNode → List Use × TimeWheelTimer}
    (hf : ∀ t' node, SameClock t t' → Keeps t' (f t' node)) (nodes : List TimerNode)
    (hClock : SameClock t t') : Keeps t' (walk f nodes t') := by
  induction nodes generalizing t' with
  | nil => exact .nil (.refl t')
  | cons node nodes ih =>
    have hNode : Keeps t' (f t' node) := hf t' node hClock
    exact hNode.append (ih (hClock.trans hNode.2))

theorem expireNode_keeps (t : TimeWheelTimer) (node : TimerNode) :
    Keeps t (expireNode t node) := by
  unfold expireNode
  dsimp only
  split
  · exact .nil ⟨rfl, rfl, rfl⟩
  · split
    · exact repeatTimerTask_keeps t _
    · exact .nil (.refl t)

theorem checkSecondWheel_keeps {slotNo : Nat} (h : slotNo < 60) :
    Keeps t (checkSecondWheel t slotNo) := by
  have hWalk : Keeps t (walk expireNode (t.mTimeWheel slotNo) (t.clear slotNo)) :=
    .of_same ⟨rfl, rfl, rfl⟩
      (walk_keeps (fun t' node _ => expireNode_keeps t' node) _ (.refl (t.clear slotNo)))
  exact hWalk.cons ⟨Nat.lt_trans h (by decide), h⟩

/-- At second 60 a node moves to the slot of its seconds. -/
theorem cascadeMinute_keeps (hSeconds : t.mSeconds = 60) (node : TimerNode) :
    Keeps t (cascadeMinute t node) := by
  unfold cascadeMinute
  split
  · exact .nil (.refl t)
  · have hSlot := Nat.mod_lt (node.getSeconds + t.mSeconds) (show 0 < t.mSeconds by omega)
    refine .of_safe ?_ ⟨rfl, rfl, rfl⟩
    simp only [List.forall_mem_cons, List.not_mem_nil, false_imp_iff, implies_true, and_true]
    exact ⟨(show t.mSeconds ≠ 0 by omega), (show _ < 144 by omega), (show _ < 60 by omega)⟩

theorem checkMinuteWheel_keeps (hSeconds : t.mSeconds = 60) (slotNo : Nat)
    (h : 60 ≤ slotNo ∧ slotNo < 120) : Keeps t (checkMinuteWheel t slotNo) := by
  have hWalk : Keeps t (walk cascadeMinute (t.mTimeWheel slotNo) (t.clear slotNo)) :=
    .of_same ⟨rfl, rfl, rfl⟩
      (walk_keeps (fun t' node hClock => cascadeMinute_keeps (hClock.1.trans hSeconds) node) _
        (.refl (t.clear slotNo)))
  exact hWalk.cons ⟨Nat.lt_trans h.2 (by decide), h⟩

/-- At minute 60 a node with minutes moves to the slot of the minute before. -/
theorem cascadeHour_keeps (hMinutes : t.mMinutes = 60) (slotNo : Nat) (node : TimerNode) :
    Keeps t (cascadeHour slotNo t node) := by
  unfold cascadeHour
  dsimp only
  split
  · split
    · rename_i hHas
      -- the flag says that there are minutes, so the slot is not that of minute -1
      have hPos : 0 < node.getMinutes := by
        rw [node.hasMinutes_eq] at hHas
        exact of_decide_eq_true hHas
      have hLt : node.getMinutes < 60 := node.mTimerTask.minutes_lt
      have hSum : (node.getMinutes + t.mMinutes) % mMinuteSlotsNum + mSecondSlotsNum =
          node.getMinutes + 60 := by
        simp only [hMinutes, mMinuteSlotsNum, mSecondSlotsNum]
        omega
      have hSlot : sizeSub (node.getMinutes + 60) 1 = node.getMinutes + 59 := by
        unfold sizeSub sizeCount
        omega
      rw [hSum, hSlot]
      refine .of_safe ?_ ⟨rfl, rfl, rfl⟩
      simp only [List.forall_mem_cons, List.not_mem_nil, false_imp_iff, implies_true, and_true]
      exact ⟨(show 60 ≠ 0 by decide), (show 1 ≤ node.getMinutes + 60 by omega),
        (show _ < 144 by omega), (show 60 ≤ _ by omega), (show _ < 120 by omega)⟩
    · split
      · have hSlot := Nat.mod_lt (node.getSeconds + t.mSeconds) (show 0 < 60 by decide)
        refine .of_safe ?_ ⟨rfl, rfl, rfl⟩
        simp only [List.forall_mem_cons, List.not_mem_nil, false_imp_iff, implies_true, and_true]
        exact ⟨(show 60 ≠ 0 by decide), Nat.lt_trans hSlot (by decide), hSlot⟩
      · exact .nil (.refl t)
  · rename_i hRound
    refine .of_safe ?_ ⟨rfl, rfl, rfl⟩
    simp only [List.mem_singleton, forall_eq]
    exact Nat.one_le_iff_ne_zero.mpr hRound

theorem checkHourWheel_keeps (hMinutes : t.mMinutes = 60) (slotNo : Nat)
    (h : 120 ≤ slotNo ∧ slotNo < 144) : Keeps t (checkHourWheel t slotNo) := by
  have hWalk : Keeps t (walk (cascadeHour slotNo) (t.mTimeWheel slotNo) (t.clear slotNo)) :=
    .of_same ⟨rfl, rfl, rfl⟩
      (walk_keeps (fun t' node hClock => cascadeHour_keeps (hClock.2.1.trans hMinutes) slotNo node)
        _ (.refl (t.clear slotNo)))
  exact hWalk.cons ⟨h.2, h⟩

end

-- ---------------------------------------------------------------------------
-- Runs
-- ---------------------------------------------------------------------------

/-- Second and minute in front of a statement. -/
def Statement.Clock : Statement → Nat → Nat → Prop
  | .checkSecond, s, m | .incSeconds, s, m => s < 60 ∧ m < 60
  | .ifSeconds, s, m => s ≤ 60 ∧ m < 60
  | .checkMinute, s, m | .resetSeconds, s, m => s = 60 ∧ m < 60
  | .incMinutes, s, m => s = 0 ∧ m < 60
  | .ifMinutes, s, m => s = 0 ∧ m ≤ 60
  | .checkHour, s, m | .resetSecondsAgain, s, m | .resetMinutes, s, m => s = 0 ∧ m = 60
  | .incHours, s, m => s = 0 ∧ m = 0

/-- The clock fits the statement that comes next. -/
def InStep (k : Ticking) : Prop := k.next.Clock k.timer.mSeconds k.timer.mMinutes

theorem InStep.of_same {t t' : TimeWheelTimer} (next : Statement) (hClock : SameClock t t')
    (h : next.Clock t.mSeconds t.mMinutes) : InStep ⟨t', next⟩ := by
  show next.Clock t'.mSeconds t'.mMinutes
  rw [hClock.1, hClock.2.1]
  exact h

/-- **One step**: what it uses fits, and the clock fits the next statement. -/
theorem step_keeps {k : Ticking} (h : InStep k) (e : Event) :
    (∀ u ∈ uses k e, Fits k.timer.mHours u) ∧ InStep (after k e) := by
  obtain ⟨t, next⟩ := k
  cases e with
  | register timerTask =>
    have hKeeps := registerTask_keeps t timerTask
    exact ⟨hKeeps.1, .of_same next hKeeps.2 h⟩
  | statement =>
    cases next with
    | checkSecond =>
      have hKeeps := checkSecondWheel_keeps (t := t) h.1
      exact ⟨hKeeps.1, .of_same .incSeconds hKeeps.2 h⟩
    | checkMinute =>
      have hKeeps := checkMinuteWheel_keeps (t := t) h.1 (t.mMinutes + mSecondSlotsNum)
        ⟨Nat.le_add_left _ _, Nat.add_lt_add_right h.2 60⟩
      exact ⟨hKeeps.1, .of_same .resetSeconds hKeeps.2 h⟩
    | checkHour =>
      have hSlot := Nat.mod_lt t.mHours (show 0 < 24 by decide)
      have hKeeps := (checkHourWheel_keeps (t := t) h.2
        (t.mHours % mHourSlotsNum + mMinuteSlotsNum + mSecondSlotsNum)
        (by simp only [mHourSlotsNum, mMinuteSlotsNum, mSecondSlotsNum]; omega)).cons
        (u := .modulus mHourSlotsNum) (show 24 ≠ 0 by decide)
      exact ⟨hKeeps.1, .of_same .resetSecondsAgain hKeeps.2 h⟩
    | ifSeconds =>
      refine ⟨nofun, ?_⟩
      show (if t.mSeconds = 60 then Statement.checkMinute else .checkSecond).Clock t.mSeconds
        t.mMinutes
      obtain ⟨hs, hm⟩ : t.mSeconds ≤ 60 ∧ t.mMinutes < 60 := h
      split
      · exact ⟨‹_›, hm⟩
      · exact ⟨by omega, hm⟩
    | ifMinutes =>
      refine ⟨nofun, ?_⟩
      show (if t.mMinutes = 60 then Statement.checkHour else .checkSecond).Clock t.mSeconds
        t.mMinutes
      obtain ⟨hs, hm⟩ : t.mSeconds = 0 ∧ t.mMinutes ≤ 60 := h
      split
      · exact ⟨hs, ‹_›⟩
      · exact ⟨by omega, by omega⟩
    | incSeconds => exact ⟨nofun, Nat.succ_le_of_lt h.1, h.2⟩
    | resetSeconds => exact ⟨nofun, rfl, h.2⟩
    | incMinutes => exact ⟨nofun, h.1, Nat.succ_le_of_lt h.2⟩
    | resetSecondsAgain => exact ⟨nofun, rfl, h.2⟩
    | resetMinutes => exact ⟨nofun, h.1, rfl⟩
    | incHours =>
      exact ⟨nofun, Nat.lt_of_le_of_lt (Nat.le_of_eq h.1) (by decide),
        Nat.lt_of_le_of_lt (Nat.le_of_eq h.2) (by decide)⟩

theorem start_inStep : InStep start := ⟨by decide, by decide⟩

theorem reachable_inStep (es : List Event) : InStep (final after start es) :=
  final_of_step (fun _ e h => (step_keeps h e).2) start_inStep

/-- **Index safety**: between any two statements of a run, every slot is one of the wheel that
is meant, no divisor is 0, and of the subtractions only `hours + mHours - 1` can wrap, where
the sum of the hours has wrapped to 0. -/
theorem statements_safe (es : List Event) (e : Event) :
    ∀ u ∈ uses (final after start es) e,
      u.Safe ∨ ∃ hours, u = .subHour hours (final after start es).timer.mHours ∧ hours ≠ 0 ∧
        (hours + (final after start es).timer.mHours) % sizeCount = 0 :=
  (step_keeps (reachable_inStep es) e).1

/-- A task is registered while `mSeconds` is 60, and the statement behind it takes it to the wheel of
the seconds: the divisor there is `mSeconds`. -/
theorem statements_safe_fullMinute :
    let es := List.replicate 179 Event.statement ++
      [.register (TimerTask.make 0 1 30 1 "a" none), .statement]
    let k := final after start es
    k.timer.mSeconds = 60 ∧
      uses k .statement = [.access .minutes 60, .modulus 60, .access .seconds 30] ∧
      ∀ u ∈ uses k .statement, u.Safe ∨ ∃ hours, u = .subHour hours k.timer.mHours ∧ hours ≠ 0 ∧
        (hours + k.timer.mHours) % sizeCount = 0 :=
  ⟨by decide +kernel, by decide +kernel, statements_safe _ .statement⟩

-- ---------------------------------------------------------------------------
-- The turns of the loop
-- ---------------------------------------------------------------------------

/-- The hours of the registered tasks are far from wrapping. -/
def Small (t : TimeWheelTimer) : Prop :=
  ∀ id task, t.mRegisteredTasks id = some task → task.mHours + t.mHours + 2 < sizeCount

section

variable {t t' : TimeWheelTimer}

theorem offset_eq {task : TimerTask} {hrs mins secs : Nat} (hMins : mins ≤ 60) (hSecs : secs ≤ 60)
    (h : task.mHours + hrs + 2 < sizeCount) :
    (offset task hrs mins secs).2 = task.offset hrs mins secs := by
  have hMinutes : task.mMinutes < 60 := task.minutes_lt
  have hSeconds : task.mSeconds < 60 := task.seconds_lt
  have hHours : (task.mHours + (hrs + (task.mMinutes + mins + (task.mSeconds + secs) / 60) / 60)) %
      sizeCount = task.mHours + (hrs + (task.mMinutes + mins + (task.mSeconds + secs) / 60) / 60) :=
    Nat.mod_eq_of_lt (by omega)
  simp only [offset, TimerTask.offset, hHours]

/-- `x - 1` of a `size_t` that is not 0. -/
theorem sizeSub_one {x : Nat} (h : 0 < x) (h' : x ≤ sizeCount) : sizeSub x 1 = x - 1 := by
  unfold sizeSub sizeCount at *
  omega

theorem addTimerNodeFor_eq {task : TimerTask} (hSeconds : t.mSeconds ≤ 60)
    (hMinutes : t.mMinutes ≤ 60) (h : task.mHours + t.mHours + 2 < sizeCount) :
    (addTimerNodeFor t task).2 = t.addTimerNodeFor task := by
  have hMinutesLt : task.mMinutes < 60 := task.minutes_lt
  unfold addTimerNodeFor TimeWheelTimer.addTimerNodeFor
  dsimp only
  split
  · rfl
  · dsimp only
    rw [offset_eq hMinutes hSeconds h]
    split
    · rename_i hHours
      rw [Nat.mod_eq_of_lt (show task.mHours + t.mHours < sizeCount by omega),
        sizeSub_one (by omega) (by omega)]
    · split
      · rename_i hSome
        rw [sizeSub_one (by omega) (by unfold sizeCount; omega)]
      · rfl

theorem Small.eraseTimerTask (h : Small t) (key : String) : Small (t.eraseTimerTask key) := by
  intro id task hTask
  by_cases hKey : id = key
  · have hNone : (t.eraseTimerTask key).mRegisteredTasks id = none := by
      rw [hKey]
      exact Function.update_self ..
    rw [hNone] at hTask
    cases hTask
  · have hSame : (t.eraseTimerTask key).mRegisteredTasks id = t.mRegisteredTasks id :=
      Function.update_of_ne hKey ..
    exact h id task (hSame ▸ hTask)

theorem Small.setTask (h : Small t) {task : TimerTask}
    (hTask : task.mHours + t.mHours + 2 < sizeCount) : Small (t.setTask task) := by
  intro id task' hTask'
  by_cases hKey : id = task.mID
  · have hSelf : (t.setTask task).mRegisteredTasks id = some task := by
      rw [hKey]
      exact Function.update_self ..
    rw [hSelf] at hTask'
    rw [← Option.some.inj hTask']
    exact hTask
  · have hSame : (t.setTask task).mRegisteredTasks id = t.mRegisteredTasks id :=
      Function.update_of_ne hKey ..
    exact h id task' (hSame ▸ hTask')

/-- From a timer with the same tasks and the same clock. -/
theorem Small.of_same (h : Small t) (hTasks : t'.mRegisteredTasks = t.mRegisteredTasks)
    (hClock : SameClock t t') : Small t' := by
  intro id task hTask
  rw [hClock.2.2]
  exact h id task (hTasks ▸ hTask)

theorem repeatTimerTask_eq (hSeconds : t.mSeconds ≤ 60) (hMinutes : t.mMinutes ≤ 60)
    (h : Small t) (key : String) :
    (repeatTimerTask t key).2 = t.repeatTimerTask key ∧ Small (t.repeatTimerTask key) := by
  unfold repeatTimerTask TimeWheelTimer.repeatTimerTask
  cases hTask : t.mRegisteredTasks key with
  | none => exact ⟨rfl, h⟩
  | some task =>
    have hHours : task.countDown.mHours + t.mHours + 2 < sizeCount := by
      rw [TimerTask.countDown_mHours]
      exact h _ task hTask
    refine ⟨addTimerNodeFor_eq (t := t.setTask task.countDown) hSeconds hMinutes hHours, ?_⟩
    exact (h.setTask hHours).of_same (TimeWheelTimer.addTimerNodeFor_registered _ _)
      (TimeWheelTimer.addTimerNodeFor_clock _ _)

theorem expireNode_eq (hSeconds : t.mSeconds ≤ 60) (hMinutes : t.mMinutes ≤ 60) (h : Small t)
    (node : TimerNode) :
    (expireNode t node).2 = t.expireNode node ∧ Small (t.expireNode node) := by
  unfold expireNode TimeWheelTimer.expireNode
  dsimp only
  split
  · exact ⟨rfl, h.eraseTimerTask _⟩
  · split
    · exact repeatTimerTask_eq hSeconds hMinutes h _
    · exact ⟨rfl, h⟩

/-- A loop over nodes, if each turn of it is the one of the other function. -/
theorem walk_eq {P : TimeWheelTimer → Prop}
    {f : TimeWheelTimer → TimerNode → List Use × TimeWheelTimer}
    {g : TimeWheelTimer → TimerNode → TimeWheelTimer}
    (hfg : ∀ t node, P t → (f t node).2 = g t node ∧ P (g t node)) (nodes : List TimerNode)
    (h : P t) : (walk f nodes t).2 = nodes.foldl g t := by
  induction nodes generalizing t with
  | nil => rfl
  | cons node nodes ih =>
    obtain ⟨hEq, hNext⟩ := hfg t node h
    show (walk f nodes (f t node).2).2 = nodes.foldl g (g t node)
    rw [hEq]
    exact ih hNext

theorem checkSecondWheel_eq (hSeconds : t.mSeconds ≤ 60) (hMinutes : t.mMinutes ≤ 60)
    (h : Small t) (slotNo : Nat) :
    (checkSecondWheel t slotNo).2 = (t.checkSecondWheel slotNo).2 := by
  refine walk_eq (P := fun u => SameClock t u ∧ Small u) (fun u node hu => ?_) _
    ⟨⟨rfl, rfl, rfl⟩, h.of_same rfl ⟨rfl, rfl, rfl⟩⟩
  obtain ⟨hClock, hSmall⟩ := hu
  obtain ⟨hEq, hNext⟩ := expireNode_eq (hClock.1 ▸ hSeconds) (hClock.2.1 ▸ hMinutes) hSmall node
  exact ⟨hEq, hClock.trans (TimeWheelTimer.expireNode_clock u node), hNext⟩

theorem checkMinuteWheel_eq (slotNo : Nat) :
    (checkMinuteWheel t slotNo).2 = (t.checkMinuteWheel slotNo).2 := by
  refine walk_eq (P := fun _ => True) (fun u node _ => ⟨?_, trivial⟩) _ trivial
  unfold cascadeMinute TimeWheelTimer.cascadeMinute
  split <;> rfl

theorem checkHourWheel_eq (slotNo : Nat) :
    (checkHourWheel t slotNo).2 = (t.checkHourWheel slotNo).2 := by
  refine walk_eq (P := fun _ => True) (fun u node _ => ⟨?_, trivial⟩) _ trivial
  have hSlot := Nat.mod_lt (node.getMinutes + u.mMinutes) (show 0 < 60 by decide)
  have hSub : sizeSub ((node.getMinutes + u.mMinutes) % mMinuteSlotsNum + mSecondSlotsNum) 1 =
      (node.getMinutes + u.mMinutes) % mMinuteSlotsNum + mSecondSlotsNum - 1 := by
    apply sizeSub_one
    · exact Nat.lt_add_left _ (by decide)
    · simp only [mMinuteSlotsNum, mSecondSlotsNum, sizeCount]
      omega
  unfold cascadeHour TimeWheelTimer.cascadeHour
  dsimp only
  rw [hSub]
  split
  · split
    · rfl
    · split <;> rfl
  · rfl

/-- Statements of `tick` lead from one state to the other. -/
def Reaches (k k' : Ticking) : Prop := ∃ n, final after k (List.replicate n .statement) = k'

theorem Reaches.refl (k : Ticking) : Reaches k k := ⟨0, rfl⟩

theorem Reaches.step {k k' : Ticking} (k₁ : Ticking) (h : after k .statement = k₁) (h' : Reaches k₁ k') :
    Reaches k k' := by
  obtain ⟨n, hn⟩ := h'
  refine ⟨n + 1, ?_⟩
  rw [List.replicate_succ, final_cons, h]
  exact hn

theorem Reaches.trans {k k₁ k' : Ticking} (h : Reaches k k₁) (h' : Reaches k₁ k') :
    Reaches k k' := by
  obtain ⟨n, hn⟩ := h
  obtain ⟨n', hn'⟩ := h'
  refine ⟨n + n', ?_⟩
  rw [List.replicate_add, final_append, hn]
  exact hn'

/-- The block for a full hour. -/
theorem reaches_tickHour (hHours : t.mHours + 1 < sizeCount) :
    Reaches ⟨t, .ifMinutes⟩ ⟨t.tickHour.2, .checkSecond⟩ := by
  by_cases h60 : t.mMinutes = 60
  · rw [TimeWheelTimer.tickHour_of_full h60]
    have hClock := TimeWheelTimer.checkHourWheel_clock t (t.mHours % 24 + 60 + 60)
    refine .step ⟨t, .checkHour⟩ ?_ <|
      .step ⟨(t.checkHourWheel (t.mHours % 24 + 60 + 60)).2, .resetSecondsAgain⟩ ?_ <|
        .step _ rfl <| .step _ rfl <| .step _ ?_ (.refl _)
    · show (⟨t, if t.mMinutes = 60 then .checkHour else .checkSecond⟩ : Ticking) = _
      rw [if_pos h60]
    · show (⟨(checkHourWheel t (t.mHours % 24 + 60 + 60)).2, .resetSecondsAgain⟩ : Ticking) = _
      rw [checkHourWheel_eq]
    · show (⟨(t.checkHourWheel (t.mHours % 24 + 60 + 60)).2.setClock 0 0
        (((t.checkHourWheel (t.mHours % 24 + 60 + 60)).2.mHours + 1) % sizeCount),
          .checkSecond⟩ : Ticking) = _
      rw [hClock.2.2, Nat.mod_eq_of_lt hHours]
  · rw [TimeWheelTimer.tickHour_of_not h60]
    refine .step _ ?_ (.refl _)
    show (⟨t, if t.mMinutes = 60 then .checkHour else .checkSecond⟩ : Ticking) = _
    rw [if_neg h60]

/-- The block for a full minute. -/
theorem reaches_tickMinute (hHours : t.mHours + 1 < sizeCount) :
    Reaches ⟨t, .ifSeconds⟩ ⟨t.tickMinute.2, .checkSecond⟩ := by
  by_cases h60 : t.mSeconds = 60
  · rw [TimeWheelTimer.tickMinute_of_full h60]
    have hClock := TimeWheelTimer.checkMinuteWheel_clock t (t.mMinutes + 60)
    refine .step ⟨t, .checkMinute⟩ ?_ <|
      .step ⟨(t.checkMinuteWheel (t.mMinutes + 60)).2, .resetSeconds⟩ ?_ <|
        .step _ rfl <| .step ⟨(t.checkMinuteWheel (t.mMinutes + 60)).2.setClock 0
          (t.mMinutes + 1) t.mHours, .ifMinutes⟩ ?_ (reaches_tickHour hHours)
    · show (⟨t, if t.mSeconds = 60 then .checkMinute else .checkSecond⟩ : Ticking) = _
      rw [if_pos h60]
    · show (⟨(checkMinuteWheel t (t.mMinutes + 60)).2, .resetSeconds⟩ : Ticking) = _
      rw [checkMinuteWheel_eq]
    · show (⟨(t.checkMinuteWheel (t.mMinutes + 60)).2.setClock 0
        ((t.checkMinuteWheel (t.mMinutes + 60)).2.mMinutes + 1)
          (t.checkMinuteWheel (t.mMinutes + 60)).2.mHours, .ifMinutes⟩ : Ticking) = _
      rw [hClock.2.1, hClock.2.2]
  · rw [TimeWheelTimer.tickMinute_of_not h60]
    refine .step _ ?_ (.refl _)
    show (⟨t, if t.mSeconds = 60 then .checkMinute else .checkSecond⟩ : Ticking) = _
    rw [if_neg h60]

/-- **A turn of the loop**: its statements, with nothing between them, are `tick`. -/
theorem tick_of_statements (hClock : t.InClock) (hSmall : Small t)
    (hHours : t.mHours + 1 < sizeCount) :
    Reaches ⟨t, .checkSecond⟩ ⟨t.tick.2, .checkSecond⟩ := by
  obtain ⟨hSeconds, hMinutes⟩ := hClock
  have hCheck := TimeWheelTimer.checkSecondWheel_clock t t.mSeconds
  rw [TimeWheelTimer.tick_eq]
  refine .step ⟨(t.checkSecondWheel t.mSeconds).2, .incSeconds⟩ ?_ <|
    .step ⟨t.afterSecond, .ifSeconds⟩ ?_ (reaches_tickMinute hHours)
  · show (⟨(checkSecondWheel t t.mSeconds).2, .incSeconds⟩ : Ticking) = _
    rw [checkSecondWheel_eq (by omega) (by omega) hSmall]
  · show (⟨(t.checkSecondWheel t.mSeconds).2.setClock
      ((t.checkSecondWheel t.mSeconds).2.mSeconds + 1)
        (t.checkSecondWheel t.mSeconds).2.mMinutes (t.checkSecondWheel t.mSeconds).2.mHours,
          .ifSeconds⟩ : Ticking) = _
    rw [hCheck.1, hCheck.2.1, hCheck.2.2]
    rfl

end

-- ---------------------------------------------------------------------------
-- A sum of hours that wraps to 0
-- ---------------------------------------------------------------------------

/-- The ticks a timer has behind it, by its clock. -/
def elapsed (t : TimeWheelTimer) : Nat := val t.mHours t.mMinutes t.mSeconds

theorem elapsed_tick {t : TimeWheelTimer} (h : t.InClock) : elapsed t.tick.2 = elapsed t + 1 := by
  unfold elapsed val
  cases TimeWheelTimer.tick_clock h <;> omega

/-- A timer without tasks comes to every time below `2 ^ 64` seconds. -/
theorem reaches_ticks {n : Nat} (h : n + 3600 < sizeCount) :
    ∃ t : TimeWheelTimer, Reaches start ⟨t, .checkSecond⟩ ∧ t.InClock ∧ elapsed t = n ∧
      ∀ id, t.mRegisteredTasks id = none := by
  induction n with
  | zero => exact ⟨.create, .refl _, ⟨by decide, by decide⟩, rfl, fun _ => rfl⟩
  | succ n ih =>
    obtain ⟨t, hReaches, hClock, hElapsed, hNone⟩ := ih (by omega)
    have hHours : t.mHours + 1 < sizeCount := by
      unfold elapsed val at hElapsed
      omega
    have hSmall : Small t := by
      intro id task hTask
      rw [hNone id] at hTask
      cases hTask
    refine ⟨t.tick.2, hReaches.trans (tick_of_statements hClock hSmall hHours),
      (TimeWheelTimer.tick_clock hClock).inClock hClock, ?_,
      fun id => TimeWheelTimer.tick_unregistered (hNone id)⟩
    rw [elapsed_tick hClock, hElapsed]

/-- After an hour, a task of `2 ^ 64 - 1` hours. -/
theorem hour_sum_wraps :
    ¬ ∀ (es : List Event) (e : Event), ∀ u ∈ uses (final after start es) e, u.Safe := by
  intro hAll
  obtain ⟨t, ⟨n, hRun⟩, ⟨hSeconds, hMinutes⟩, hElapsed, -⟩ :=
    reaches_ticks (n := 3600) (by decide)
  have hHours : t.mHours = 1 := by
    unfold elapsed val at hElapsed
    omega
  have hSafe := hAll (List.replicate n .statement)
    (.register (TimerTask.make (sizeCount - 1) 0 0 1 "a" none))
  rw [hRun] at hSafe
  have hUse : Use.subHour (sizeCount - 1) t.mHours ∈ uses ⟨t, .checkSecond⟩
      (.register (TimerTask.make (sizeCount - 1) 0 0 1 "a" none)) := by
    simp [uses, step, registerTask, addTimerNodeFor, TimerTask.make, offset, sizeCount]
  have hLe := hSafe _ hUse
  rw [hHours] at hLe
  exact absurd hLe (show ¬1 ≤ (sizeCount - 1 + 1) % sizeCount by decide)

end WheelIndex

end WarringServer.Utility
