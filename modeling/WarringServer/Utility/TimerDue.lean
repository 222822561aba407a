import WarringServer.Utility.TimerView

/-!
# When a node runs

A node that is alone in a timer (as it is in the view of its task) goes through the
wheels in a way that its slot, its flags and the clock determine: `restFate` is what the
minute and hour blocks of a tick do to it, `due` the number of ticks before the one that
runs it.

* `tick_alone` / `tick_expire` — a tick, for a node outside and inside the second slot
  it checks;
* `due_step` — `due` is 0 for a node that runs, and goes down by one otherwise;
* `run_until_due` — over a whole run with any other registrations.
-/

namespace WarringServer.Utility

open Run

namespace TimeWheelTimer

-- ---------------------------------------------------------------------------
-- The clock
-- ---------------------------------------------------------------------------

/-- The clock between two ticks. -/
def InClock (t : TimeWheelTimer) : Prop := t.mSeconds < 60 ∧ t.mMinutes < 60

/-- The two timers show the same time. -/
def SameClock (t t' : TimeWheelTimer) : Prop :=
  t'.mSeconds = t.mSeconds ∧ t'.mMinutes = t.mMinutes ∧ t'.mHours = t.mHours

theorem SameClock.refl (t : TimeWheelTimer) : SameClock t t := ⟨rfl, rfl, rfl⟩

theorem SameClock.trans {t t' t'' : TimeWheelTimer} (h : SameClock t t')
    (h' : SameClock t' t'') : SameClock t t'' :=
  ⟨h'.1.trans h.1, h'.2.1.trans h.2.1, h'.2.2.trans h.2.2⟩

/-- A new node leaves the clock alone. -/
theorem addTimerNodeFor_clock (t : TimeWheelTimer) (task : TimerTask) :
    SameClock t (t.addTimerNodeFor task) := by
  unfold addTimerNodeFor
  dsimp only
  split
  · exact SameClock.refl t
  · split
    · exact ⟨rfl, rfl, rfl⟩
    · split <;> exact ⟨rfl, rfl, rfl⟩

/-- So does a task that repeats. -/
theorem repeatTimerTask_clock (t : TimeWheelTimer) (key : String) :
    SameClock t (t.repeatTimerTask key) := by
  unfold repeatTimerTask
  split
  · exact SameClock.trans ⟨rfl, rfl, rfl⟩ (addTimerNodeFor_clock _ _)
  · exact SameClock.refl t

/-- So does a node that has come to its second, whatever its cycle number. -/
theorem expireNode_clock (t : TimeWheelTimer) (node : TimerNode) :
    SameClock t (t.expireNode node) := by
  unfold expireNode
  dsimp only
  split
  · exact ⟨rfl, rfl, rfl⟩
  · split
    · exact repeatTimerTask_clock t _
    · exact SameClock.refl t

theorem cascadeMinute_clock (t : TimeWheelTimer) (node : TimerNode) :
    SameClock t (t.cascadeMinute node) := by
  unfold cascadeMinute
  split <;> exact ⟨rfl, rfl, rfl⟩

theorem cascadeHour_clock (p : Nat) (t : TimeWheelTimer) (node : TimerNode) :
    SameClock t (t.cascadeHour p node) := by
  unfold cascadeHour
  split
  · split
    · exact ⟨rfl, rfl, rfl⟩
    · split <;> exact ⟨rfl, rfl, rfl⟩
  · exact ⟨rfl, rfl, rfl⟩

/-- A whole slot, if each of its nodes leaves the clock alone. -/
theorem foldl_clock {f : TimeWheelTimer → TimerNode → TimeWheelTimer}
    (hf : ∀ t node, SameClock t (f t node)) (nodes : List TimerNode) (t : TimeWheelTimer) :
    SameClock t (nodes.foldl f t) := by
  induction nodes generalizing t with
  | nil => exact SameClock.refl t
  | cons node nodes ih => exact (hf t node).trans (ih (f t node))

theorem checkSecondWheel_clock (t : TimeWheelTimer) (p : Nat) :
    SameClock t (t.checkSecondWheel p).2 :=
  foldl_clock expireNode_clock _ (t.clear p)

theorem checkMinuteWheel_clock (t : TimeWheelTimer) (p : Nat) :
    SameClock t (t.checkMinuteWheel p).2 :=
  foldl_clock cascadeMinute_clock _ (t.clear p)

theorem checkHourWheel_clock (t : TimeWheelTimer) (p : Nat) :
    SameClock t (t.checkHourWheel p).2 :=
  foldl_clock (cascadeHour_clock p) _ (t.clear p)

/-- What a tick does to the clock. -/
inductive NextClock (t t' : TimeWheelTimer) : Prop
  | second (h : t.mSeconds ≠ 59) (hs : t'.mSeconds = t.mSeconds + 1)
      (hm : t'.mMinutes = t.mMinutes) (hh : t'.mHours = t.mHours)
  | minute (h : t.mSeconds = 59) (h' : t.mMinutes ≠ 59) (hs : t'.mSeconds = 0)
      (hm : t'.mMinutes = t.mMinutes + 1) (hh : t'.mHours = t.mHours)
  | hour (h : t.mSeconds = 59) (h' : t.mMinutes = 59) (hs : t'.mSeconds = 0)
      (hm : t'.mMinutes = 0) (hh : t'.mHours = t.mHours + 1)

/-- A full hour: its slot is checked first, and then minutes and seconds start again. -/
theorem tickHour_of_full {t : TimeWheelTimer} (h : t.mMinutes = 60) :
    t.tickHour = ((t.checkHourWheel (t.mHours % 24 + 60 + 60)).1,
      (t.checkHourWheel (t.mHours % 24 + 60 + 60)).2.setClock 0 0 (t.mHours + 1)) := by
  obtain ⟨-, -, hHours⟩ := checkHourWheel_clock t (t.mHours % 24 + 60 + 60)
  have hUnfold : t.tickHour = ((t.checkHourWheel (t.mHours % 24 + 60 + 60)).1,
      (t.checkHourWheel (t.mHours % 24 + 60 + 60)).2.setClock 0 0
        ((t.checkHourWheel (t.mHours % 24 + 60 + 60)).2.mHours + 1)) := if_pos h
  rw [hUnfold, hHours]

/-- Between two hours nothing is done. -/
theorem tickHour_of_not {t : TimeWheelTimer} (h : t.mMinutes ≠ 60) : t.tickHour = ([], t) :=
  if_neg h

/-- A full minute: its slot is checked at `mSeconds` 60, and the hour may be full with it. -/
theorem tickMinute_of_full {t : TimeWheelTimer} (h : t.mSeconds = 60) :
    t.tickMinute = ((t.checkMinuteWheel (t.mMinutes + 60)).1 ++
        ((t.checkMinuteWheel (t.mMinutes + 60)).2.setClock 0 (t.mMinutes + 1)
          t.mHours).tickHour.1,
      ((t.checkMinuteWheel (t.mMinutes + 60)).2.setClock 0 (t.mMinutes + 1)
        t.mHours).tickHour.2) := by
  obtain ⟨-, hMinutes, hHours⟩ := checkMinuteWheel_clock t (t.mMinutes + 60)
  have hUnfold : t.tickMinute = ((t.checkMinuteWheel (t.mMinutes + 60)).1 ++
        ((t.checkMinuteWheel (t.mMinutes + 60)).2.setClock 0
          ((t.checkMinuteWheel (t.mMinutes + 60)).2.mMinutes + 1)
          (t.checkMinuteWheel (t.mMinutes + 60)).2.mHours).tickHour.1,
      ((t.checkMinuteWheel (t.mMinutes + 60)).2.setClock 0
        ((t.checkMinuteWheel (t.mMinutes + 60)).2.mMinutes + 1)
        (t.checkMinuteWheel (t.mMinutes + 60)).2.mHours).tickHour.2) := if_pos h
  rw [hUnfold, hMinutes, hHours]

/-- Between two minutes nothing is done. -/
theorem tickMinute_of_not {t : TimeWheelTimer} (h : t.mSeconds ≠ 60) : t.tickMinute = ([], t) :=
  if_neg h

/-- The timer behind the second wheel's part of a tick. -/
def afterSecond (t : TimeWheelTimer) : TimeWheelTimer :=
  (t.checkSecondWheel t.mSeconds).2.setClock (t.mSeconds + 1) t.mMinutes t.mHours

/-- A tick: the slot of the second, then the carries. -/
theorem tick_eq (t : TimeWheelTimer) :
    t.tick = ((t.checkSecondWheel t.mSeconds).1 ++ t.afterSecond.tickMinute.1,
      t.afterSecond.tickMinute.2) := by
  obtain ⟨hSeconds, hMinutes, hHours⟩ := checkSecondWheel_clock t t.mSeconds
  have hUnfold : t.tick = ((t.checkSecondWheel t.mSeconds).1 ++
        ((t.checkSecondWheel t.mSeconds).2.setClock
          ((t.checkSecondWheel t.mSeconds).2.mSeconds + 1)
          (t.checkSecondWheel t.mSeconds).2.mMinutes
          (t.checkSecondWheel t.mSeconds).2.mHours).tickMinute.1,
      ((t.checkSecondWheel t.mSeconds).2.setClock
          ((t.checkSecondWheel t.mSeconds).2.mSeconds + 1)
          (t.checkSecondWheel t.mSeconds).2.mMinutes
          (t.checkSecondWheel t.mSeconds).2.mHours).tickMinute.2) := rfl
  rw [hUnfold, hSeconds, hMinutes, hHours, afterSecond]

/-- **The clock** counts on by one second. -/
theorem tick_clock {t : TimeWheelTimer} (hClock : InClock t) : NextClock t t.tick.2 := by
  obtain ⟨hSeconds, hMinutes⟩ := hClock
  rw [tick_eq]
  show NextClock t t.afterSecond.tickMinute.2
  by_cases h59 : t.mSeconds = 59
  · rw [tickMinute_of_full (show t.mSeconds + 1 = 60 by omega)]
    dsimp only
    -- the state in which the hour block looks at the minutes
    set t₁ := (t.afterSecond.checkMinuteWheel (t.afterSecond.mMinutes + 60)).2.setClock 0
      (t.afterSecond.mMinutes + 1) t.afterSecond.mHours
    have hM₁ : t₁.mMinutes = t.mMinutes + 1 := rfl
    have hH₁ : t₁.mHours = t.mHours := rfl
    by_cases h59' : t.mMinutes = 59
    · -- the minute has carried into the hour
      rw [tickHour_of_full (by omega)]
      exact .hour h59 h59' rfl rfl rfl
    · rw [tickHour_of_not (by omega)]
      exact .minute h59 h59' rfl rfl rfl
  · rw [tickMinute_of_not (show t.mSeconds + 1 ≠ 60 by omega)]
    exact .second h59 rfl rfl rfl

/-- And stays in its range. -/
theorem NextClock.inClock {t t' : TimeWheelTimer} (h : NextClock t t') (hClock : InClock t) :
    InClock t' := by
  obtain ⟨hSeconds, hMinutes⟩ := hClock
  constructor
  · cases h <;> omega
  · cases h <;> omega

/-- Registering takes no time. -/
theorem registerTask_clock (t : TimeWheelTimer) (task : TimerTask) :
    SameClock t (t.registerTask task) := by
  unfold registerTask
  dsimp only
  split
  · exact ⟨rfl, rfl, rfl⟩
  · split
    · have hInsert : SameClock t (t.insertTask task) := by
        unfold insertTask
        split <;> exact ⟨rfl, rfl, rfl⟩
      exact hInsert.trans (addTimerNodeFor_clock _ _)
    · exact addTimerNodeFor_clock t task

/-- The clock of every reachable timer is one between two ticks. -/
theorem step_inClock (t : TimeWheelTimer) (e : TimerEvent) (h : InClock t) :
    InClock (t.step e) := by
  cases e with
  | tick => exact (tick_clock h).inClock h
  | register task =>
    obtain ⟨hS, hM, -⟩ := registerTask_clock t task
    exact ⟨hS ▸ h.1, hM ▸ h.2⟩

/-- So the clock is in its range in every run. -/
theorem final_inClock (es : List TimerEvent) : InClock (final step create es) :=
  final_of_step step_inClock ⟨by decide, by decide⟩

-- ---------------------------------------------------------------------------
-- A single node
-- ---------------------------------------------------------------------------

/-- No node at all. -/
def Vacant (t : TimeWheelTimer) : Prop := ∀ q, t.mTimeWheel q = []

/-- One node, in slot `p`. -/
def Alone (t : TimeWheelTimer) (p : Nat) (n : TimerNode) : Prop :=
  ∀ q, t.mTimeWheel q = if q = p then [n] else []

/-- A place is a slot and the node in it; no place is left for a node that has run. -/
abbrev Place := Option (Nat × TimerNode)

/-- The timer holds the node at its place, and the node was run exactly if it has no
place. -/
def Holds (node : TimerNode) (r : List Firing × TimeWheelTimer) : Place → Prop
  | some (p, n) => r.1 = [] ∧ Alone r.2 p n
  | none => r.1 = node.run ∧ Vacant r.2

section

variable {t : TimeWheelTimer} {p : Nat} {n : TimerNode}

/-- The slot of the node has nothing else. -/
theorem Alone.self (h : Alone t p n) : t.mTimeWheel p = [n] := by rw [h p, if_pos rfl]

/-- And the other slots have nothing. -/
theorem Alone.other (h : Alone t p n) {q : Nat} (hq : q ≠ p) : t.mTimeWheel q = [] := by
  rw [h q, if_neg hq]

/-- Once its slot is taken out, the wheels are empty. -/
theorem Alone.clear (h : Alone t p n) : Vacant (t.clear p) := by
  intro q
  by_cases hq : q = p
  · subst hq
    exact Function.update_self ..
  · show Function.update t.mTimeWheel p [] q = []
    rw [Function.update_of_ne hq, h.other hq]

/-- The only node of empty wheels. -/
theorem Vacant.push (h : Vacant t) (p : Nat) (n : TimerNode) : Alone (t.push p n) p n := by
  intro q
  show Function.update t.mTimeWheel p (t.mTimeWheel p ++ [n]) q = _
  by_cases hq : q = p
  · subst hq
    rw [Function.update_self, if_pos rfl, h q]
    rfl
  · rw [Function.update_of_ne hq, if_neg hq, h q]

/-- Nothing is taken out of an empty slot. -/
theorem clear_of_empty (h : t.mTimeWheel p = []) : t.clear p = t := by
  ext1
  · rfl
  · rfl
  · rfl
  · show Function.update t.mTimeWheel p [] = t.mTimeWheel
    rw [← h, Function.update_eq_self]
  · rfl

-- ---------------------------------------------------------------------------
-- Checking a slot with at most one node
-- ---------------------------------------------------------------------------

/-- Nothing rings in an empty slot, here and in the other two wheels. -/
theorem checkSecondWheel_empty (h : t.mTimeWheel p = []) : t.checkSecondWheel p = ([], t) := by
  simp only [checkSecondWheel, h, List.flatMap_nil, List.foldl_nil, clear_of_empty h]

theorem checkMinuteWheel_empty (h : t.mTimeWheel p = []) : t.checkMinuteWheel p = ([], t) := by
  simp only [checkMinuteWheel, h, List.flatMap_nil, List.foldl_nil, clear_of_empty h]

theorem checkHourWheel_empty (h : t.mTimeWheel p = []) : t.checkHourWheel p = ([], t) := by
  simp only [checkHourWheel, h, List.flatMap_nil, List.foldl_nil, clear_of_empty h]

/-- The only node of its slot runs and is done with. -/
theorem checkSecondWheel_single (h : t.mTimeWheel p = [n]) :
    t.checkSecondWheel p = (n.run, (t.clear p).expireNode n) := by
  simp only [checkSecondWheel, h, List.flatMap_cons, List.flatMap_nil, List.append_nil,
    List.foldl_cons, List.foldl_nil]

/-- What the minute block of a tick does to a node when minute `m` ends. -/
def minuteFate (m p : Nat) (n : TimerNode) : Place :=
  if p = m + 60 then
    if n.getSeconds > 0 then some (n.getSeconds, TimerNode.make n.mTimerTask) else none
  else
    some (p, n)

/-- What the hour block of a tick does to a node when hour `h` ends. -/
def hourFate (h p : Nat) (n : TimerNode) : Place :=
  if p = h % 24 + 60 + 60 then
    if n.mRound = 0 then
      if n.getMinutes > 0 then some (n.getMinutes + 59, TimerNode.make n.mTimerTask)
      else if n.getSeconds > 0 then some (n.getSeconds, TimerNode.make n.mTimerTask)
      else none
    else
      some (p, n.subRound)
  else
    some (p, n)

/-- What is left of a tick for a node when the clock shows `s:m:h`. -/
def restFate (s m h p : Nat) (n : TimerNode) : Place :=
  if s = 60 then
    (minuteFate m p n).bind fun place =>
      if m + 1 = 60 then hourFate h place.1 place.2 else some place
  else
    some (p, n)

theorem checkMinuteWheel_fate (hSeconds : t.mSeconds = 60) (h : Alone t p n) (m : Nat) :
    Holds n (t.checkMinuteWheel (m + 60)) (minuteFate m p n) := by
  unfold minuteFate
  by_cases hp : p = m + 60
  · subst hp
    have hCheck : t.checkMinuteWheel (m + 60) =
        (if !n.mHasSeconds then n.run else [], (t.clear (m + 60)).cascadeMinute n) := by
      simp only [checkMinuteWheel, h.self, List.flatMap_cons, List.flatMap_nil, List.append_nil,
        List.foldl_cons, List.foldl_nil]
    have hLt : n.getSeconds < 60 := n.mTimerTask.seconds_lt
    -- the flag is read for the number it stands for
    rw [if_pos rfl, hCheck]
    by_cases hPos : n.getSeconds > 0
    · -- on to the second wheel
      have hFlag : n.mHasSeconds = true := n.hasSeconds_eq.trans (decide_eq_true hPos)
      have hSlot : (n.getSeconds + (t.clear (m + 60)).mSeconds) % (t.clear (m + 60)).mSeconds =
          n.getSeconds := by
        show (n.getSeconds + t.mSeconds) % t.mSeconds = n.getSeconds
        rw [hSeconds]
        omega
      simp only [cascadeMinute, hFlag, hSlot, if_pos hPos, Bool.not_true, Bool.false_eq_true,
        if_false]
      exact ⟨rfl, h.clear.push _ _⟩
    · have hFlag : n.mHasSeconds = false := n.hasSeconds_eq.trans (decide_eq_false hPos)
      -- no second to wait for: it runs here
      simp only [cascadeMinute, hFlag, if_neg hPos, Bool.not_false, if_true]
      exact ⟨rfl, h.clear⟩
  · -- the slot that is checked is another
    rw [if_neg hp, checkMinuteWheel_empty (h.other (Ne.symm hp))]
    exact ⟨rfl, h⟩

theorem checkHourWheel_fate (hMinutes : t.mMinutes = 60) (hSeconds : t.mSeconds = 0)
    (h : Alone t p n) (hr : Nat) :
    Holds n (t.checkHourWheel (hr % 24 + 60 + 60)) (hourFate hr p n) := by
  unfold hourFate
  by_cases hp : p = hr % 24 + 60 + 60
  · have hCheck : t.checkHourWheel p =
        (if n.mRound = 0 ∧ !n.mHasMinutes ∧ !n.mHasSeconds then n.run else [],
          (t.clear p).cascadeHour p n) := by
      simp only [checkHourWheel, h.self, List.flatMap_cons, List.flatMap_nil, List.append_nil,
        List.foldl_cons, List.foldl_nil]
    have hLt : n.getSeconds < 60 := n.mTimerTask.seconds_lt
    have hLt' : n.getMinutes < 60 := n.mTimerTask.minutes_lt
    rw [if_pos hp, ← hp, hCheck]
    by_cases hRound : n.mRound = 0
    · rw [if_pos hRound]
      by_cases hPos : n.getMinutes > 0
      · -- on to the minute wheel
        have hFlag : n.mHasMinutes = true := n.hasMinutes_eq.trans (decide_eq_true hPos)
        have hSlot : (n.getMinutes + (t.clear p).mMinutes) % mMinuteSlotsNum +
            mSecondSlotsNum - 1 = n.getMinutes + 59 := by
          show (n.getMinutes + t.mMinutes) % 60 + 60 - 1 = _
          rw [hMinutes]
          omega
        simp only [cascadeHour, hRound, hFlag, hSlot, if_pos hPos, Bool.not_true,
          Bool.false_eq_true, false_and, and_false, if_true, if_false]
        exact ⟨rfl, h.clear.push _ _⟩
      · have hFlag : n.mHasMinutes = false := n.hasMinutes_eq.trans (decide_eq_false hPos)
        rw [if_neg hPos]
        by_cases hPos' : n.getSeconds > 0
        · -- on to the second wheel
          have hFlag' : n.mHasSeconds = true := n.hasSeconds_eq.trans (decide_eq_true hPos')
          have hSlot : (n.getSeconds + (t.clear p).mSeconds) % mSecondSlotsNum =
              n.getSeconds := by
            show (n.getSeconds + t.mSeconds) % 60 = _
            rw [hSeconds]
            omega
          simp only [cascadeHour, hRound, hFlag, hFlag', hSlot, if_pos hPos', Bool.not_true,
            Bool.false_eq_true, and_false, if_true, if_false]
          exact ⟨rfl, h.clear.push _ _⟩
        · -- the full hour is its time
          have hFlag' : n.mHasSeconds = false := n.hasSeconds_eq.trans (decide_eq_false hPos')
          simp only [cascadeHour, hRound, hFlag, hFlag', if_neg hPos', Bool.not_false,
            Bool.false_eq_true, and_self, if_true, if_false]
          exact ⟨rfl, h.clear⟩
    · -- another round
      simp only [cascadeHour, hRound, false_and, if_false]
      exact ⟨rfl, h.clear.push _ _⟩
  · -- the slot that is checked is another
    rw [if_neg hp, checkHourWheel_empty (h.other (Ne.symm hp))]
    exact ⟨rfl, h⟩

-- ---------------------------------------------------------------------------
-- Ticks
-- ---------------------------------------------------------------------------

theorem Vacant.setClock (h : Vacant t) (s m hr : Nat) : Vacant (t.setClock s m hr) := h

theorem Alone.setClock (h : Alone t p n) (s m hr : Nat) : Alone (t.setClock s m hr) p n := h

/-- Empty wheels stay empty, and silent. -/
theorem Vacant.tickHour (h : Vacant t) : t.tickHour.1 = [] ∧ Vacant t.tickHour.2 := by
  by_cases hFull : t.mMinutes = 60
  · rw [tickHour_of_full hFull, checkHourWheel_empty (h _)]
    exact ⟨rfl, h⟩
  · rw [tickHour_of_not hFull]
    exact ⟨rfl, h⟩

theorem Vacant.tickMinute (h : Vacant t) : t.tickMinute.1 = [] ∧ Vacant t.tickMinute.2 := by
  by_cases hFull : t.mSeconds = 60
  · rw [tickMinute_of_full hFull, checkMinuteWheel_empty (h _)]
    exact (h.setClock 0 (t.mMinutes + 1) t.mHours).tickHour
  · rw [tickMinute_of_not hFull]
    exact ⟨rfl, h⟩

/-- Without nodes a tick runs nothing. -/
theorem Vacant.tick (h : Vacant t) : t.tick.1 = [] ∧ Vacant t.tick.2 := by
  have hAfter : Vacant t.afterSecond := by
    rw [afterSecond, checkSecondWheel_empty (h _)]
    exact h
  rw [tick_eq, checkSecondWheel_empty (h _)]
  exact hAfter.tickMinute

/-- The node at a full hour, or between two. -/
theorem tickHour_fate (hSeconds : t.mSeconds = 0) (h : Alone t p n) :
    Holds n t.tickHour (if t.mMinutes = 60 then hourFate t.mHours p n else some (p, n)) := by
  by_cases hFull : t.mMinutes = 60
  · rw [tickHour_of_full hFull, if_pos hFull]
    have hCheck := checkHourWheel_fate hFull hSeconds h t.mHours
    cases hFate : hourFate t.mHours p n with
    | none =>
      rw [hFate] at hCheck
      exact ⟨hCheck.1, hCheck.2.setClock _ _ _⟩
    | some place =>
      rw [hFate] at hCheck
      exact ⟨hCheck.1, hCheck.2.setClock _ _ _⟩
  · rw [tickHour_of_not hFull, if_neg hFull]
    exact ⟨rfl, h⟩

/-- What a node runs is a matter of its task. -/
theorem run_of_task {n n' : TimerNode} (h : n.mTimerTask = n'.mTimerTask) : n.run = n'.run := by
  unfold TimerNode.run TimerNode.getId
  rw [h]

/-- So is how often. -/
theorem getCycNum_of_task {n n' : TimerNode} (h : n'.mTimerTask = n.mTimerTask) :
    n'.getCycNum = n.getCycNum := by
  unfold TimerNode.getCycNum
  rw [h]

/-- A node may stand for another with the same task. -/
theorem Holds.of_task {n n' : TimerNode} {r : List Firing × TimeWheelTimer} {place : Place}
    (h : Holds n r place) (hTask : n'.mTimerTask = n.mTimerTask) : Holds n' r place := by
  cases place with
  | none => exact ⟨h.1.trans (run_of_task hTask.symm), h.2⟩
  | some place => exact h

/-- On its way down a node keeps its task. -/
theorem minuteFate_task {m : Nat} {place : Nat × TimerNode}
    (h : minuteFate m p n = some place) : place.2.mTimerTask = n.mTimerTask := by
  unfold minuteFate at h
  split at h
  · split at h
    · rw [← Option.some.inj h]
      rfl
    · cases h
  · rw [← Option.some.inj h]

/-- Also from the hours. -/
theorem hourFate_task {hr : Nat} {place : Nat × TimerNode}
    (h : hourFate hr p n = some place) : place.2.mTimerTask = n.mTimerTask := by
  unfold hourFate at h
  split at h
  · split at h
    · split at h
      · rw [← Option.some.inj h]
        rfl
      · split at h
        · rw [← Option.some.inj h]
          rfl
        · cases h
    · rw [← Option.some.inj h]
      rfl
  · rw [← Option.some.inj h]

/-- A node keeps its task on its way. -/
theorem restFate_task {s m hr : Nat} {place : Nat × TimerNode}
    (h : restFate s m hr p n = some place) : place.2.mTimerTask = n.mTimerTask := by
  unfold restFate at h
  split at h
  · obtain ⟨place₁, hMinute, hHour⟩ := Option.bind_eq_some_iff.mp h
    split at hHour
    · rw [hourFate_task hHour, minuteFate_task hMinute]
    · rw [← Option.some.inj hHour, minuteFate_task hMinute]
  · rw [← Option.some.inj h]

/-- The rest of a tick behind the second wheel. -/
theorem tickMinute_fate (h : Alone t p n) :
    Holds n t.tickMinute (restFate t.mSeconds t.mMinutes t.mHours p n) := by
  unfold restFate
  by_cases hFull : t.mSeconds = 60
  · rw [tickMinute_of_full hFull, if_pos hFull]
    have hCheck := checkMinuteWheel_fate hFull h t.mMinutes
    cases hFate : minuteFate t.mMinutes p n with
    | none =>
      rw [hFate] at hCheck
      -- it has run, so the hour block finds nothing
      obtain ⟨hRuns, hVacant⟩ := hCheck
      obtain ⟨hNone, hStill⟩ := (hVacant.setClock 0 (t.mMinutes + 1) t.mHours).tickHour
      refine ⟨?_, hStill⟩
      rw [hRuns, hNone, List.append_nil]
    | some place =>
      rw [hFate] at hCheck
      -- it is still there, perhaps in another slot
      obtain ⟨hNone, hAlone⟩ := hCheck
      have hHour := tickHour_fate (t := (t.checkMinuteWheel (t.mMinutes + 60)).2.setClock 0
        (t.mMinutes + 1) t.mHours) rfl hAlone
      rw [hNone, List.nil_append]
      exact hHour.of_task (minuteFate_task hFate).symm
  · rw [tickMinute_of_not hFull, if_neg hFull]
    exact ⟨rfl, h⟩

/-- **A tick**, for a node that is not in the second slot it checks. -/
theorem tick_alone (h : Alone t p n) (hp : p ≠ t.mSeconds) :
    Holds n t.tick (restFate (t.mSeconds + 1) t.mMinutes t.mHours p n) := by
  have hEmpty : t.mTimeWheel t.mSeconds = [] := h.other (Ne.symm hp)
  have hAfter : Alone t.afterSecond p n := by
    rw [afterSecond, checkSecondWheel_empty hEmpty]
    exact h
  have hRest := tickMinute_fate hAfter
  rw [tick_eq, checkSecondWheel_empty hEmpty]
  exact hRest

/-- **A tick**, for a node in the second slot it checks: the node runs, and the rest of
the tick sees what `expireNode` leaves. -/
theorem tick_expire (h : Alone t t.mSeconds n) :
    t.tick.1 = n.run ++ (((t.clear t.mSeconds).expireNode n).setClock (t.mSeconds + 1)
        t.mMinutes t.mHours).tickMinute.1 ∧
      t.tick.2 = (((t.clear t.mSeconds).expireNode n).setClock (t.mSeconds + 1)
        t.mMinutes t.mHours).tickMinute.2 := by
  rw [tick_eq, afterSecond, checkSecondWheel_single h.self]
  exact ⟨rfl, rfl⟩

-- ---------------------------------------------------------------------------
-- Due
-- ---------------------------------------------------------------------------

/-- Ticks a node with seconds takes on the second wheel behind its minute. -/
def secondTail (n : TimerNode) : Nat := if n.getSeconds > 0 then n.getSeconds + 1 else 0

/-- The ticks before the one that runs a node: until the end of the second, minute or
hour of its slot, and then along the lower wheels. -/
def due (t : TimeWheelTimer) (p : Nat) (n : TimerNode) : Nat :=
  if p < 60 then
    (p + 60 - t.mSeconds) % 60
  else if p < 120 then
    59 - t.mSeconds + 60 * ((p - t.mMinutes) % 60) + secondTail n
  else
    59 - t.mSeconds + 60 * (59 - t.mMinutes) + 3600 * ((p - 96 - t.mHours % 24) % 24) +
      86400 * n.mRound + 60 * n.getMinutes + secondTail n

/-- In the wheel of seconds a node is due when the clock comes to its slot. -/
theorem due_second {t : TimeWheelTimer} {p : Nat} (n : TimerNode) (hp : p < 60) :
    t.due p n = (p + 60 - t.mSeconds) % 60 := if_pos hp

/-- In that of minutes it waits for the minute, and then for its seconds. -/
theorem due_minute {t : TimeWheelTimer} {p : Nat} (n : TimerNode) (hp : 60 ≤ p) (hp' : p < 120) :
    t.due p n = 59 - t.mSeconds + 60 * ((p - t.mMinutes) % 60) + secondTail n := by
  rw [due, if_neg (by omega), if_pos hp']

/-- In that of hours it waits for the hour and its rounds, and goes down from there. -/
theorem due_hour {t : TimeWheelTimer} {p : Nat} (n : TimerNode) (hp : 120 ≤ p) :
    t.due p n = 59 - t.mSeconds + 60 * (59 - t.mMinutes) +
      3600 * ((p - 96 - t.mHours % 24) % 24) + 86400 * n.mRound + 60 * n.getMinutes +
        secondTail n := by
  rw [due, if_neg (by omega), if_neg (by omega)]

/-- A node whose slot does not end with the tick stays and is one tick closer. -/
theorem due_stay {t t' : TimeWheelTimer} {p : Nat} (hClock : InClock t) (hNext : NextClock t t')
    (hSecond : p ≠ t.mSeconds) (hMinute : t.mSeconds = 59 → p ≠ t.mMinutes + 60)
    (hHour : t.mSeconds = 59 → t.mMinutes = 59 → p ≠ t.mHours % 24 + 60 + 60) (hp : p < 144)
    (n : TimerNode) : t'.due p n + 1 = t.due p n := by
  obtain ⟨hS, hM⟩ := hClock
  by_cases hp₁ : p < 60
  · -- one wheel after the other, each with its three kinds of tick
    rw [due_second n hp₁, due_second n hp₁]
    cases hNext <;> omega
  · by_cases hp₂ : p < 120
    · rw [due_minute n (by omega) hp₂, due_minute n (by omega) hp₂]
      cases hNext <;> omega
    · rw [due_hour n (by omega), due_hour n (by omega)]
      cases hNext <;> omega

/-- The node in the slot of the minute that ends moves to its second, or was due. -/
theorem due_step_minute {t t' : TimeWheelTimer} (hClock : InClock t) (h : t.mSeconds = 59)
    (hs : t'.mSeconds = 0) (n : TimerNode) :
    if n.getSeconds > 0 then
      t'.due n.getSeconds (TimerNode.make n.mTimerTask) + 1 = t.due (t.mMinutes + 60) n
    else
      t.due (t.mMinutes + 60) n = 0 := by
  obtain ⟨-, hMinutes⟩ := hClock
  have hLt : n.getSeconds < 60 := n.mTimerTask.seconds_lt
  rw [due_minute n (by omega) (by omega), h, secondTail]
  split
  · rw [due_second _ hLt, hs]
    omega
  · omega

/-- The node in the slot of the hour that ends takes another round, moves to its minute
or its second, or was due. -/
theorem due_step_hour {t t' : TimeWheelTimer} {p : Nat} (h : t.mSeconds = 59)
    (h' : t.mMinutes = 59) (hs : t'.mSeconds = 0) (hm : t'.mMinutes = 0)
    (hh : t'.mHours = t.mHours + 1) (hp : p = t.mHours % 24 + 60 + 60) (n : TimerNode) :
    match hourFate t.mHours p n with
    | none => t.due p n = 0
    | some place => place.1 < 144 ∧ t'.due place.1 place.2 + 1 = t.due p n := by
  have hLt : n.getSeconds < 60 := n.mTimerTask.seconds_lt
  have hLt' : n.getMinutes < 60 := n.mTimerTask.minutes_lt
  rw [hourFate, if_pos hp, due_hour n (by omega), h, h']
  by_cases hRound : n.mRound = 0
  · rw [if_pos hRound]
    by_cases hPos : n.getMinutes > 0
    · -- the slot of minute `getMinutes - 1`, which ends with that minute
      rw [if_pos hPos]
      refine ⟨by show n.getMinutes + 59 < 144; omega, ?_⟩
      have hTail : secondTail (TimerNode.make n.mTimerTask) = secondTail n := rfl
      rw [due_minute _ (by omega) (by omega), hs, hm, hTail]
      omega
    · rw [if_neg hPos, secondTail]
      by_cases hPos' : n.getSeconds > 0
      · rw [if_pos hPos', if_pos hPos']
        refine ⟨by show n.getSeconds < 144; omega, ?_⟩
        rw [due_second _ hLt, hs]
        omega
      · -- the hour was what it waited for
        rw [if_neg hPos', if_neg hPos']
        show _ = 0
        omega
  · -- one round less, and a day to go
    rw [if_neg hRound]
    refine ⟨by show p < 144; omega, ?_⟩
    have hRound' : n.subRound.mRound = n.mRound - 1 := rfl
    have hMinutes' : n.subRound.getMinutes = n.getMinutes := rfl
    have hTail : secondTail n.subRound = secondTail n := rfl
    rw [due_hour _ (by omega), hs, hm, hh, hRound', hMinutes', hTail]
    omega

/-- A node in the second slot passes the hour block untouched. -/
theorem hourFate_second {h p : Nat} (n : TimerNode) (hp : p < 120) :
    hourFate h p n = some (p, n) := if_neg (by omega)

/-- **A step of the way.** A node with no place left after a tick was due; any other is
one tick closer. -/
theorem due_step {t t' : TimeWheelTimer} (hClock : InClock t) (hNext : NextClock t t')
    {p : Nat} (hp : p < 144) (hSlot : p ≠ t.mSeconds) (n : TimerNode) :
    match restFate (t.mSeconds + 1) t.mMinutes t.mHours p n with
    | none => t.due p n = 0
    | some place => place.1 < 144 ∧ t'.due place.1 place.2 + 1 = t.due p n := by
  have hSeconds : t'.mSeconds = 0 ∨ t.mSeconds ≠ 59 := by cases hNext <;> omega
  have hLt : n.getSeconds < 60 := n.mTimerTask.seconds_lt
  unfold restFate
  by_cases hFull : t.mSeconds + 1 = 60
  · have h59 : t.mSeconds = 59 := by omega
    have hs : t'.mSeconds = 0 := by omega
    rw [if_pos hFull, minuteFate]
    by_cases hMinute : p = t.mMinutes + 60
    · -- the minute block takes it, the hour block finds it in a second slot if at all
      have hDue := due_step_minute hClock h59 hs n
      rw [if_pos hMinute, hMinute]
      by_cases hPos : n.getSeconds > 0
      · rw [if_pos hPos] at hDue ⊢
        rw [Option.bind_some, hourFate_second _ (show n.getSeconds < 120 by omega), ite_self]
        exact ⟨by show n.getSeconds < 144; omega, hDue⟩
      · rw [if_neg hPos] at hDue ⊢
        exact hDue
    · rw [if_neg hMinute, Option.bind_some]
      by_cases hEnd : t.mMinutes + 1 = 60 ∧ p = t.mHours % 24 + 60 + 60
      · cases hNext with
        | second h _ _ _ => omega
        | minute _ h' _ _ _ => omega
        | hour _ h' _ hm hh =>
          rw [if_pos hEnd.1]
          exact due_step_hour h59 h' hs hm hh hEnd.2 n
      · -- neither block has its slot
        have hStay := due_stay hClock hNext hSlot (fun _ => hMinute) (by omega) hp n
        by_cases hHour : t.mMinutes + 1 = 60
        · rw [if_pos hHour, hourFate, if_neg (by omega)]
          exact ⟨hp, hStay⟩
        · rw [if_neg hHour]
          exact ⟨hp, hStay⟩
  · rw [if_neg hFull]
    exact ⟨hp, due_stay hClock hNext hSlot (by omega) (by omega) hp n⟩

/-- A due node is in the second slot the tick checks, or has no place behind it. -/
theorem restFate_of_due (hClock : InClock t) (hp : p < 144) (hSlot : p ≠ t.mSeconds)
    (hDue : t.due p n = 0) : restFate (t.mSeconds + 1) t.mMinutes t.mHours p n = none := by
  have hStep := due_step hClock (tick_clock hClock) hp hSlot n
  cases hFate : restFate (t.mSeconds + 1) t.mMinutes t.mHours p n with
  | none => rfl
  | some place =>
    rw [hFate] at hStep
    omega

/-- **A tick on the way.** The node of a tick that is not yet due runs nothing and comes
one tick closer. -/
theorem tick_on_way (hClock : InClock t) (h : Alone t p n) (hp : p < 144)
    (hDue : 0 < t.due p n) :
    ∃ p' n', p' < 144 ∧ n'.mTimerTask = n.mTimerTask ∧ Alone t.tick.2 p' n' ∧
      t.tick.2.due p' n' + 1 = t.due p n ∧ t.tick.1 = [] := by
  have hSlot : p ≠ t.mSeconds := by
    -- the slot of the present second holds nodes that are due
    intro hEq
    have hLt : p < 60 := hEq ▸ hClock.1
    rw [due_second n hLt] at hDue
    omega
  have hTick := tick_alone h hSlot
  have hStep := due_step hClock (tick_clock hClock) hp hSlot n
  cases hFate : restFate (t.mSeconds + 1) t.mMinutes t.mHours p n with
  | none =>
    rw [hFate] at hStep
    omega
  | some place =>
    rw [hFate] at hTick hStep
    exact ⟨place.1, place.2, hStep.1, restFate_task hFate, hTick.2, hStep.2, hTick.1⟩

-- ---------------------------------------------------------------------------
-- The node of a registration
-- ---------------------------------------------------------------------------

/-- The slot `addTimerNodeFor` takes. -/
def slotFor (t : TimeWheelTimer) (task : TimerTask) : Nat :=
  if task.mHours ≠ 0 then
    (task.mHours + t.mHours - 1) % 24 + 60 + 60
  else if task.mMinutes ≠ 0 then
    (task.mMinutes + t.mMinutes - 1) % 60 + 60
  else
    (task.mSeconds + t.mSeconds) % 60

/-- The node `addTimerNodeFor` pushes. -/
def nodeFor (t : TimeWheelTimer) (task : TimerTask) : TimerNode :=
  TimerNode.make (task.offset t.mHours t.mMinutes t.mSeconds)

/-- Where a task goes. -/
theorem addTimerNodeFor_eq {task : TimerTask} (hDelay : 0 < task.delay) :
    t.addTimerNodeFor task = t.push (t.slotFor task) (t.nodeFor task) := by
  have hSome : ¬(task.mHours = 0 ∧ task.mMinutes = 0 ∧ task.mSeconds = 0) := by
    -- the early return is for tasks without delay only
    unfold TimerTask.delay at hDelay
    omega
  unfold addTimerNodeFor slotFor
  dsimp only
  rw [if_neg hSome]
  split
  · rfl
  · split <;> rfl

/-- It is a slot that there is. -/
theorem slotFor_lt (task : TimerTask) : t.slotFor task < 144 := by
  unfold slotFor
  split
  · omega
  · split <;> omega

-- ---------------------------------------------------------------------------
-- Runs
-- ---------------------------------------------------------------------------

theorem ticks_tick (es : List TimerEvent) : ticks (.tick :: es) = ticks es + 1 :=
  List.count_cons_self ..

theorem ticks_register (task : TimerTask) (es : List TimerEvent) :
    ticks (.register task :: es) = ticks es :=
  List.count_cons_of_ne (by simp) ..

/-- Ticks alone. -/
theorem ticks_replicate (n : Nat) : ticks (List.replicate n .tick) = n :=
  List.count_replicate_self ..

/-- The second after ticks from the start. -/
theorem mSeconds_of_ticks (n : Nat) :
    (final step create (List.replicate n .tick)).mSeconds = n % 60 := by
  induction n with
  | zero => rfl
  | succ n ih =>
    have hNext := tick_clock (final_inClock (List.replicate n .tick))
    rw [List.replicate_succ', final_append]
    show (final step create (List.replicate n .tick)).tick.2.mSeconds = _
    cases hNext with
    | second h hs _ _ => omega
    | minute h _ hs _ _ => omega
    | hour h _ hs _ _ => omega

/-- A tick that is `k` others behind. -/
theorem split_at_tick {es : List TimerEvent} {k : Nat} (h : k < ticks es) :
    ∃ es₁ es₂, es = es₁ ++ .tick :: es₂ ∧ ticks es₁ = k := by
  induction es generalizing k with
  | nil => cases h
  | cons e es ih =>
    cases e with
    | tick =>
      cases k with
      | zero => exact ⟨[], es, rfl, rfl⟩
      | succ k =>
        rw [ticks_tick] at h
        obtain ⟨es₁, es₂, rfl, hTicks⟩ := ih (Nat.lt_of_succ_lt_succ h)
        exact ⟨.tick :: es₁, es₂, rfl, by rw [ticks_tick, hTicks]⟩
    | register task =>
      rw [ticks_register] at h
      obtain ⟨es₁, es₂, rfl, hTicks⟩ := ih h
      exact ⟨.register task :: es₁, es₂, rfl, by rw [ticks_register, hTicks]⟩

/-- **Until it is due** a node is on its way, whatever else is registered. -/
theorem run_until_due {v : View} {es : List TimerEvent} (hUnseen : ∀ e ∈ es, e.Unseen v)
    (hClock : InClock t) (hClosed : Closed v t) (h : Alone (t.only v) p n) (hp : p < 144)
    (hTicks : ticks es ≤ t.due p n) :
    ∃ p' n', p' < 144 ∧ n'.mTimerTask = n.mTimerTask ∧ Alone ((final step t es).only v) p' n' ∧
      (final step t es).due p' n' + ticks es = t.due p n := by
  induction es generalizing t p n with
  | nil => exact ⟨p, n, hp, rfl, h, rfl⟩
  | cons e es ih =>
    have hRest : ∀ e ∈ es, e.Unseen v := fun e he => hUnseen e (List.mem_cons_of_mem _ he)
    have hClock' := step_inClock t e hClock
    have hClosed' := step_closed hClosed (hUnseen e List.mem_cons_self)
    cases e with
    | tick =>
      rw [ticks_tick] at hTicks ⊢
      obtain ⟨p₁, n₁, hp₁, hTask₁, hAlone₁, hDue₁, -⟩ :=
        tick_on_way (t := t.only v) hClock h hp (show 0 < t.due p n by omega)
      -- from the timer the view sees back to what it sees of the timer
      rw [← (tick_only hClosed).state] at hAlone₁ hDue₁
      have hDue₁' : (t.step .tick).due p₁ n₁ + 1 = t.due p n := hDue₁
      obtain ⟨p', n', hp', hTask', hAlone', hDue'⟩ :=
        ih hRest hClock' hClosed' hAlone₁ hp₁ (by omega)
      refine ⟨p', n', hp', hTask'.trans hTask₁, hAlone', ?_⟩
      rw [final_cons]
      omega
    | register task =>
      rw [ticks_register] at hTicks ⊢
      obtain ⟨hTask, hKey⟩ := hUnseen _ List.mem_cons_self
      have hState : (t.step (.register task)).only v = t.only v :=
        registerTask_only_other hTask hKey
      -- a registration leaves the node where it is, and the clock with it
      obtain ⟨hS, hM, hH⟩ := registerTask_clock t task
      have hSame : (t.step (.register task)).due p n = t.due p n := by
        show (t.registerTask task).due p n = t.due p n
        unfold due
        rw [hS, hM, hH]
      obtain ⟨p', n', hp', hTask', hAlone', hDue'⟩ :=
        ih hRest hClock' hClosed' (hState.symm ▸ h) hp (by omega)
      refine ⟨p', n', hp', hTask', hAlone', ?_⟩
      rw [final_cons, hDue', hSame]

/-- **Where nothing is seen** nothing comes up. -/
theorem run_vacant {v : View} {es : List TimerEvent} (hUnseen : ∀ e ∈ es, e.Unseen v)
    (hClosed : Closed v t) (h : Vacant (t.only v)) : Vacant ((final step t es).only v) := by
  induction es generalizing t with
  | nil => exact h
  | cons e es ih =>
    have hRest : ∀ e ∈ es, e.Unseen v := fun e he => hUnseen e (List.mem_cons_of_mem _ he)
    have hClosed' := step_closed hClosed (hUnseen e List.mem_cons_self)
    cases e with
    | tick =>
      refine ih hRest hClosed' ?_
      show Vacant (t.tick.2.only v)
      rw [(tick_only hClosed).state]
      exact h.tick.2
    | register task =>
      obtain ⟨hTask, hKey⟩ := hUnseen _ List.mem_cons_self
      refine ih hRest hClosed' ?_
      show Vacant ((t.registerTask task).only v)
      rw [registerTask_only_other hTask hKey]
      exact h

end

end TimeWheelTimer

end WarringServer.Utility
