import Mathlib.Algebra.Group.Nat.Defs
import Mathlib.Data.List.Basic
import Mathlib.Tactic.Common
import WarringServer.Lib.Run

/-!
# Thread pool bookkeeping

`Threadpool` keeps its threads in one vector. A shrink cancels threads but leaves
them in the vector as holes; an expansion refills holes that have become inactive
and appends the rest. `mActiveNum` is the number of live threads in both, and an
index bound as well: a shrink cancels the indices from the new number up to
`mActiveNum`, and an expansion looks for holes below `mActiveNum` only.

The two readings agree as long as the live threads are the first ones of the vector.
Holes break this, in two ways:

* a shrink that meets a hole cancels it once more, and a live thread less than
  it counts;
* an expansion decrements the number of threads to add once per hole, and wraps
  below zero if there are more holes than threads to add.

`adjust_booked_iff` — one adjustment keeps the books exactly if neither happens;
`bookkeeping_iff` — so does a whole run.
-/

namespace WarringServer.Thread

open Run

/-- A thread of the pool as the pool sees it: it runs until it is cancelled, and is
inactive (`mInactive`) some time after that, when its local tasks are done. -/
inductive RThread where
  | running
  | cancelled
  | inactive
  deriving DecidableEq, Repr

/-- `command(CANCEL_WHEN_COMPLETE)`. It does not wake up a thread that has ended. -/
def RThread.cancelWhenComplete : RThread → RThread
  | .running => .cancelled
  | .cancelled => .cancelled
  | .inactive => .inactive

/-- A cancelled thread ends; nothing else does. -/
def RThread.finish : RThread → RThread
  | .running => .running
  | .cancelled => .inactive
  | .inactive => .inactive

/-- What ends the run of the pool. -/
inductive PoolFault where
  /-- An unsigned counter goes below zero. -/
  | counterWraps
  /-- `mThreads.at(i)` throws. -/
  | outOfRange
  /-- `total / n` with no result counted. -/
  | divisionByZero
  deriving DecidableEq, Repr

/-- Subtraction of unsigned counters. -/
def sub (a b : Nat) : Except PoolFault Nat :=
  if b ≤ a then .ok (a - b) else .error .counterWraps

theorem sub_of_le {a b : Nat} (h : b ≤ a) : sub a b = .ok (a - b) := if_pos h

/-- `MAX_THREADS_NUM()`. -/
def maxThreadsNum : Nat := 256

structure Threadpool where
  mHardwareNum : Nat
  mActiveNum : Nat
  mExpectation : Nat
  mThreads : List RThread
  deriving DecidableEq, Repr

namespace Threadpool

def mMaxNum (_ : Threadpool) : Nat := maxThreadsNum

/-- The constructor, on a machine of `hardware` cores. -/
def init (hardware : Nat) : Threadpool :=
  let active := if hardware ≤ maxThreadsNum then hardware else maxThreadsNum
  { mHardwareNum := hardware
    mActiveNum := active
    mExpectation := 0
    mThreads := List.replicate active .running }

-- ---------------------------------------------------------------------------
-- The two adjustments
-- ---------------------------------------------------------------------------

/-- The locals of `expandThreads`: the vector, `n` and `res`. -/
structure Filling where
  threads : List RThread
  n : Nat
  res : Nat

/-- Body of the loop that refills holes. -/
def fillHole (s : Filling) (i : Nat) : Except PoolFault Filling :=
  match s.threads[i]? with
  | none => .error .outOfRange
  | some .inactive => do
      let n ← sub s.n 1
      .ok { threads := s.threads.set i .running, n := n, res := s.res + 1 }
  | some _ => .ok s

/-- The loop over the indices `i, …, i + k - 1`. -/
def fillHoles (s : Filling) (i : Nat) : Nat → Except PoolFault Filling
  | 0 => .ok s
  | k + 1 => do fillHoles (← fillHole s i) (i + 1) k

def expandThreads (p : Threadpool) (num : Nat) : Except PoolFault Threadpool := do
  let n ← (if p.mActiveNum + num > p.mMaxNum then sub p.mMaxNum p.mActiveNum else .ok num)
  let s ← fillHoles ⟨p.mThreads, n, 0⟩ p.mHardwareNum (p.mActiveNum - p.mHardwareNum)
  .ok { p with
    mActiveNum := p.mActiveNum + (s.res + s.n)
    mThreads := s.threads ++ List.replicate s.n .running }

/-- `mThreads.at(i)->command(CANCEL_WHEN_COMPLETE)`. -/
def cancelAt (threads : List RThread) (i : Nat) : Except PoolFault (List RThread) :=
  match threads[i]? with
  | none => .error .outOfRange
  | some thd => .ok (threads.set i thd.cancelWhenComplete)

/-- The loop over the indices `i + k - 1, …, i`. -/
def cancelDown (threads : List RThread) (i : Nat) : Nat → Except PoolFault (List RThread)
  | 0 => .ok threads
  | k + 1 => do cancelDown (← cancelAt threads (i + k)) i k

def shrinkThreads (p : Threadpool) (num : Nat) : Except PoolFault Threadpool := do
  let n ← sub p.mActiveNum num
  if n < p.mHardwareNum then .ok p
  else
    let threads ← cancelDown p.mThreads n (p.mActiveNum - n)
    .ok { p with mActiveNum := n, mThreads := threads }

/-- The adjustment in `getExpectationAndAdjust`. -/
def adjust (p : Threadpool) (expectation : Nat) : Except PoolFault Threadpool :=
  let p := { p with mExpectation := expectation }
  if p.mExpectation > p.mActiveNum then p.expandThreads (p.mExpectation - p.mActiveNum)
  else if p.mExpectation < p.mActiveNum then p.shrinkThreads (p.mActiveNum - p.mExpectation)
  else .ok p

/-- The time-out branch of `getExpectationAndAdjust`: `total` of `n` results counted
so far, and `ratio` a `uint16_t`. -/
def getExpectationAndAdjust (p : Threadpool) (total n : Nat) : Except PoolFault Threadpool :=
  if n = 0 then .error .divisionByZero
  else
    let ratio := total / n % 2 ^ 16
    p.adjust (p.mHardwareNum * (1 + ratio))

/-- A thread the pool has cancelled becomes inactive. -/
def finish (p : Threadpool) (i : Nat) : Threadpool :=
  { p with mThreads := p.mThreads.modify i RThread.finish }

/-- The threads that have not been cancelled. -/
def live (p : Threadpool) : Nat := p.mThreads.count .running

-- ---------------------------------------------------------------------------
-- The loops
-- ---------------------------------------------------------------------------

/-- The threads in state `x` among the indices `i, …, i + k - 1`. -/
def countIn (x : RThread) (threads : List RThread) (i k : Nat) : Nat :=
  ((threads.drop i).take k).count x

section

variable {x : RThread} {threads : List RThread} {i j k : Nat}

@[simp] theorem countIn_zero : countIn x threads i 0 = 0 := by
  simp [countIn]

theorem countIn_head (h : i < threads.length) :
    countIn x threads i (k + 1) =
      countIn x threads (i + 1) k + if threads[i] = x then 1 else 0 := by
  rw [countIn, List.drop_eq_getElem_cons h, List.take_succ_cons, List.count_cons, countIn]
  simp

theorem countIn_last (h : i + k < threads.length) :
    countIn x threads i (k + 1) =
      countIn x threads i k + if threads[i + k] = x then 1 else 0 := by
  have hDrop : k < (threads.drop i).length := by
    rw [List.length_drop]
    omega
  rw [countIn, List.take_succ_eq_append_getElem hDrop, List.count_append, countIn,
    List.getElem_drop]
  simp [List.count_cons]

theorem countIn_le : countIn x threads i k ≤ k := by
  calc countIn x threads i k ≤ ((threads.drop i).take k).length := List.count_le_length
    _ ≤ k := List.length_take_le ..

/-- A change below the range is not seen in it. -/
theorem countIn_set_below {y : RThread} (h : j < i) :
    countIn x (threads.set j y) i k = countIn x threads i k := by
  rw [countIn, List.drop_set_of_lt h, countIn]

/-- Nor is one above it. -/
theorem countIn_set_above {y : RThread} (h : i + k ≤ j) :
    countIn x (threads.set j y) i k = countIn x threads i k := by
  rw [countIn, List.drop_set, if_neg (by omega), List.take_set_of_le (by omega), countIn]

theorem count_set_of_ne {y : RThread} (h : i < threads.length) (hOld : threads[i] ≠ x) :
    (threads.set i y).count x = threads.count x + if y = x then 1 else 0 := by
  simp [List.count_set h, hOld]

theorem count_set_of_eq {y : RThread} (h : i < threads.length) (hOld : threads[i] = x) :
    (threads.set i y).count x + 1 = threads.count x + if y = x then 1 else 0 := by
  have hPos : 0 < threads.count x := List.count_pos_iff.mpr (hOld ▸ List.getElem_mem h)
  rw [List.count_set h]
  simp [hOld]
  omega

end

section

variable {s : Filling} {i : Nat} (hIn : i < s.threads.length)
include hIn

/-- A hole with a thread left to add is refilled. -/
theorem fillHole_refill (hHole : s.threads[i] = .inactive) (hLeft : s.n ≠ 0) :
    fillHole s i = .ok ⟨s.threads.set i .running, s.n - 1, s.res + 1⟩ := by
  simp [fillHole, List.getElem?_eq_getElem hIn, hHole, sub_of_le (show 1 ≤ s.n by omega),
    bind, Except.bind]

/-- With no thread left to add it wraps `n`. -/
theorem fillHole_wraps (hHole : s.threads[i] = .inactive) (hLeft : s.n = 0) :
    fillHole s i = .error .counterWraps := by
  simp [fillHole, List.getElem?_eq_getElem hIn, hHole, hLeft, sub, bind, Except.bind]

/-- All other threads are passed over, the cancelled ones too. -/
theorem fillHole_skip (hHole : s.threads[i] ≠ .inactive) : fillHole s i = .ok s := by
  rw [fillHole, List.getElem?_eq_getElem hIn]
  cases hThread : s.threads[i] with
  | inactive => exact absurd hThread hHole
  | running => rfl
  | cancelled => rfl

end

theorem fillHoles_succ {s s' : Filling} {i : Nat} (k : Nat) (h : fillHole s i = .ok s') :
    fillHoles s i (k + 1) = fillHoles s' (i + 1) k := by
  show (fillHole s i >>= fun s => fillHoles s (i + 1) k) = _
  rw [h]
  rfl

/-- Enough threads to add for the holes: the loop refills all of them. -/
theorem fillHoles_ok (s : Filling) (i k : Nat) (hLength : i + k ≤ s.threads.length)
    (hHoles : countIn .inactive s.threads i k ≤ s.n) :
    ∃ s', fillHoles s i k = .ok s' ∧
      s'.n = s.n - countIn .inactive s.threads i k ∧
      s'.res = s.res + countIn .inactive s.threads i k ∧
      s'.threads.count .running =
        s.threads.count .running + countIn .inactive s.threads i k := by
  induction k generalizing s i with
  | zero => exact ⟨s, rfl, by simp, by simp, by simp⟩
  | succ k ih =>
    have hIn : i < s.threads.length := by omega
    rw [countIn_head hIn] at hHoles ⊢
    by_cases hHole : s.threads[i] = .inactive
    · rw [if_pos hHole] at hHoles ⊢
      -- one hole is refilled, and the rest of the range is untouched
      have hRest : countIn .inactive (s.threads.set i .running) (i + 1) k =
          countIn .inactive s.threads (i + 1) k := countIn_set_below (Nat.lt_succ_self i)
      have hLive : (s.threads.set i .running).count .running = s.threads.count .running + 1 :=
        count_set_of_ne hIn (by rw [hHole]; decide)
      obtain ⟨s', hRun, hn, hres, hLive'⟩ :=
        ih ⟨s.threads.set i .running, s.n - 1, s.res + 1⟩ (i + 1)
          (by rw [List.length_set]; omega) (by rw [hRest]; show _ ≤ s.n - 1; omega)
      dsimp only at hn hres hLive'
      refine ⟨s', ?_, by omega, by omega, by omega⟩
      rw [fillHoles_succ k (fillHole_refill hIn hHole (by omega)), hRun]
    · rw [if_neg hHole] at hHoles ⊢
      obtain ⟨s', hRun, hn, hres, hLive⟩ := ih s (i + 1) (by omega) (by omega)
      refine ⟨s', ?_, by omega, by omega, by omega⟩
      rw [fillHoles_succ k (fillHole_skip hIn hHole), hRun]

/-- More holes than threads to add: `--n` wraps. -/
theorem fillHoles_wraps (s : Filling) (i k : Nat) (hLength : i + k ≤ s.threads.length)
    (hHoles : s.n < countIn .inactive s.threads i k) :
    fillHoles s i k = .error .counterWraps := by
  induction k generalizing s i with
  | zero =>
    rw [countIn_zero] at hHoles
    omega
  | succ k ih =>
    have hIn : i < s.threads.length := by omega
    rw [countIn_head hIn] at hHoles
    by_cases hHole : s.threads[i] = .inactive
    · rw [if_pos hHole] at hHoles
      by_cases hZero : s.n = 0
      · show (fillHole s i >>= fun s => fillHoles s (i + 1) k) = _
        rw [fillHole_wraps hIn hHole hZero]
        rfl
      · have hRest : countIn .inactive (s.threads.set i .running) (i + 1) k =
            countIn .inactive s.threads (i + 1) k := countIn_set_below (Nat.lt_succ_self i)
        rw [fillHoles_succ k (fillHole_refill hIn hHole hZero)]
        exact ih _ (i + 1) (by rw [List.length_set]; omega)
          (by rw [hRest]; show s.n - 1 < _; omega)
    · rw [if_neg hHole] at hHoles
      rw [fillHoles_succ k (fillHole_skip hIn hHole)]
      exact ih s (i + 1) (by omega) (by omega)

/-- The loop that cancels takes the live threads of its range, and those only. -/
theorem cancelDown_ok (threads : List RThread) (i k : Nat) (hLength : i + k ≤ threads.length) :
    ∃ threads', cancelDown threads i k = .ok threads' ∧
      threads'.count .running + countIn .running threads i k = threads.count .running := by
  induction k generalizing threads with
  | zero => exact ⟨threads, rfl, by simp⟩
  | succ k ih =>
    have hIn : i + k < threads.length := by omega
    let threads₁ := threads.set (i + k) threads[i + k].cancelWhenComplete
    have hStep : cancelAt threads (i + k) = .ok threads₁ := by
      simp [cancelAt, List.getElem?_eq_getElem hIn, threads₁]
    have hRest : countIn .running threads₁ i k = countIn .running threads i k :=
      countIn_set_above (Nat.le_refl _)
    have hLength₁ : threads₁.length = threads.length := List.length_set
    obtain ⟨threads', hRun, hLive⟩ := ih threads₁ (by omega)
    refine ⟨threads', ?_, ?_⟩
    · show (cancelAt threads (i + k) >>= fun threads => cancelDown threads i k) = _
      rw [hStep]
      exact hRun
    · rw [countIn_last hIn]
      have hNever : threads[i + k].cancelWhenComplete ≠ .running := by
        cases threads[i + k] <;> decide
      by_cases hRunning : threads[i + k] = .running
      · have hSet := count_set_of_eq (y := threads[i + k].cancelWhenComplete) hIn hRunning
        rw [if_neg hNever] at hSet
        rw [if_pos hRunning]
        have hSame : threads₁.count .running + 1 = threads.count .running := hSet
        omega
      · have hSet := count_set_of_ne (y := threads[i + k].cancelWhenComplete) hIn hRunning
        rw [if_neg hNever] at hSet
        rw [if_neg hRunning]
        have hSame : threads₁.count .running = threads.count .running := hSet
        omega

-- ---------------------------------------------------------------------------
-- One adjustment
-- ---------------------------------------------------------------------------

/-- The threads an adjustment to `t` adds. -/
def toAdd (p : Threadpool) (t : Nat) : Nat := min t maxThreadsNum - p.mActiveNum

/-- No hole gets in the way of an adjustment to `t`: an expansion finds no more
inactive threads than it adds, and a shrink finds live threads only. -/
def Unhindered (p : Threadpool) (t : Nat) : Prop :=
  (p.mActiveNum < t →
    countIn .inactive p.mThreads p.mHardwareNum (p.mActiveNum - p.mHardwareNum) ≤ p.toAdd t) ∧
  (t < p.mActiveNum → countIn .running p.mThreads t (p.mActiveNum - t) = p.mActiveNum - t)

instance (p : Threadpool) (t : Nat) : Decidable (p.Unhindered t) :=
  inferInstanceAs (Decidable (_ ∧ _))

/-- The books are in order: no fault so far, as many live threads as `mActiveNum` says,
and as many as the last adjustment asked for (`mExpectation` is 0 before the first). -/
def Booked (r : Except PoolFault Threadpool) : Prop :=
  ∃ p, r = .ok p ∧ p.live = p.mActiveNum ∧
    (p.mExpectation ≠ 0 → p.mActiveNum = min p.mExpectation maxThreadsNum)

/-- The sizes of a pool on a machine of `mHardwareNum` cores. -/
structure Sized (p : Threadpool) : Prop where
  hardware : 1 ≤ p.mHardwareNum
  low : p.mHardwareNum ≤ p.mActiveNum
  high : p.mActiveNum ≤ maxThreadsNum

section

variable {p : Threadpool} {t : Nat}

theorem live_le : p.live ≤ p.mThreads.length := List.count_le_length

theorem booked_ok : Booked (.ok p) ↔ p.live = p.mActiveNum ∧
    (p.mExpectation ≠ 0 → p.mActiveNum = min p.mExpectation maxThreadsNum) := by
  refine ⟨?_, fun h => ⟨p, rfl, h⟩⟩
  rintro ⟨q, hq, h⟩
  cases hq
  exact h

theorem not_booked_error {f : PoolFault} : ¬ Booked (.error f) := by
  rintro ⟨p, hp, -⟩
  cases hp

/-- The number of threads to add is capped, and does not wrap. -/
theorem capped (hSized : Sized p) (hMore : p.mActiveNum < t) :
    (if p.mActiveNum + (t - p.mActiveNum) > p.mMaxNum then sub p.mMaxNum p.mActiveNum
      else .ok (t - p.mActiveNum)) = .ok (p.toAdd t) := by
  have hHigh := hSized.high
  have hMax : p.mMaxNum = maxThreadsNum := rfl
  rw [hMax, toAdd]
  by_cases hCap : p.mActiveNum + (t - p.mActiveNum) > maxThreadsNum
  · rw [if_pos hCap, sub_of_le hHigh, Nat.min_eq_right (by omega)]
  · rw [if_neg hCap, Nat.min_eq_left (by omega)]

theorem adjust_more (hSized : Sized p) (hMore : p.mActiveNum < t) :
    p.adjust t =
      fillHoles ⟨p.mThreads, p.toAdd t, 0⟩ p.mHardwareNum (p.mActiveNum - p.mHardwareNum) >>=
        fun s => .ok { p with
          mExpectation := t
          mActiveNum := p.mActiveNum + (s.res + s.n)
          mThreads := s.threads ++ List.replicate s.n .running } := by
  rw [adjust]
  dsimp only
  rw [if_pos hMore]
  show ((if p.mActiveNum + (t - p.mActiveNum) > p.mMaxNum then sub p.mMaxNum p.mActiveNum
      else .ok (t - p.mActiveNum)) >>= _) = _
  rw [capped hSized hMore]
  rfl

/-- An expansion with few enough holes adds exactly what is missing. -/
theorem adjust_more_ok (hSized : Sized p) (hLive : p.live = p.mActiveNum)
    (hMore : p.mActiveNum < t)
    (hHoles : countIn .inactive p.mThreads p.mHardwareNum (p.mActiveNum - p.mHardwareNum) ≤
      p.toAdd t) :
    ∃ q, p.adjust t = .ok q ∧ q.mHardwareNum = p.mHardwareNum ∧ q.mExpectation = t ∧
      q.mActiveNum = min t maxThreadsNum ∧ q.live = q.mActiveNum := by
  have hLow := hSized.low
  have hHigh := hSized.high
  have hLength : p.live ≤ p.mThreads.length := live_le
  obtain ⟨s, hRun, hn, hres, hCount⟩ := fillHoles_ok ⟨p.mThreads, p.toAdd t, 0⟩ p.mHardwareNum
    (p.mActiveNum - p.mHardwareNum) (by dsimp only; omega) hHoles
  rw [adjust_more hSized hMore, hRun]
  have hAdd : p.toAdd t + p.mActiveNum = min t maxThreadsNum := by
    rw [toAdd]
    omega
  dsimp only at hn hres hCount
  have hBefore : p.mThreads.count .running = p.live := rfl
  refine ⟨_, rfl, rfl, rfl, ?_, ?_⟩
  · show p.mActiveNum + (s.res + s.n) = _
    omega
  · show (s.threads ++ List.replicate s.n RThread.running).count .running =
      p.mActiveNum + (s.res + s.n)
    rw [List.count_append, List.count_replicate_self]
    omega

/-- A shrink lowers `mActiveNum` as asked, but the live threads only by those it meets. -/
theorem adjust_less (hLive : p.live = p.mActiveNum)
    (hLess : t < p.mActiveNum) (hLow : p.mHardwareNum ≤ t) :
    ∃ q, p.adjust t = .ok q ∧ q.mHardwareNum = p.mHardwareNum ∧ q.mExpectation = t ∧
      q.mActiveNum = t ∧
      q.live + countIn .running p.mThreads t (p.mActiveNum - t) = p.live := by
  have hLength : p.live ≤ p.mThreads.length := live_le
  have hNew : p.mActiveNum - (p.mActiveNum - t) = t := by omega
  obtain ⟨threads, hRun, hCount⟩ :=
    cancelDown_ok p.mThreads t (p.mActiveNum - t) (by omega)
  refine ⟨{ p with mExpectation := t, mActiveNum := t, mThreads := threads },
    ?_, rfl, rfl, rfl, hCount⟩
  rw [adjust]
  dsimp only
  rw [if_neg (by omega), if_pos hLess, shrinkThreads]
  dsimp only
  rw [sub_of_le (by omega), hNew]
  show (if t < p.mHardwareNum then _ else _) = _
  rw [if_neg (by omega), hRun]
  rfl

/-- **One adjustment.** The books stay in order exactly if no hole gets in the way. -/
theorem adjust_booked_iff (hSized : Sized p) (hBooked : Booked (.ok p))
    (hLow : p.mHardwareNum ≤ t) : Booked (p.adjust t) ↔ p.Unhindered t := by
  obtain ⟨hLive, -⟩ := booked_ok.mp hBooked
  have hHigh := hSized.high
  rcases Nat.lt_trichotomy p.mActiveNum t with hMore | hSame | hLess
  · have hNot : ¬ t < p.mActiveNum := by omega
    refine ⟨fun h => ⟨fun _ => ?_, fun h => absurd h hNot⟩, ?_⟩
    · -- an expansion with too many holes ends the pool
      by_contra hHoles
      have hLength : p.live ≤ p.mThreads.length := live_le
      have hLowActive := hSized.low
      have hWrap := fillHoles_wraps ⟨p.mThreads, p.toAdd t, 0⟩ p.mHardwareNum
        (p.mActiveNum - p.mHardwareNum) (by dsimp only; omega) (by dsimp only; omega)
      rw [adjust_more hSized hMore, hWrap] at h
      exact not_booked_error h
    · intro h
      obtain ⟨q, hRun, -, hExp, hActive, hLive'⟩ := adjust_more_ok hSized hLive hMore (h.1 hMore)
      rw [hRun]
      exact booked_ok.mpr ⟨hLive', fun _ => by rw [hExp, hActive]⟩
  · have hRun : p.adjust t = .ok { p with mExpectation := t } := by
      rw [adjust]
      dsimp only
      rw [if_neg (by omega), if_neg (by omega)]
    rw [hRun, booked_ok]
    refine ⟨fun _ => ⟨fun h => by omega, fun h => by omega⟩, fun _ => ⟨hLive, fun _ => ?_⟩⟩
    show p.mActiveNum = min t maxThreadsNum
    omega
  · obtain ⟨q, hRun, -, hExp, hActive, hCount⟩ := adjust_less hLive hLess hLow
    have hRange : countIn .running p.mThreads t (p.mActiveNum - t) ≤ p.mActiveNum - t :=
      countIn_le
    rw [hRun, booked_ok]
    refine ⟨fun h => ⟨fun h => by omega, fun _ => by omega⟩, fun h => ?_⟩
    have hAll := h.2 hLess
    exact ⟨by omega, fun _ => by rw [hExp, hActive]; omega⟩

/-- The sizes are kept. -/
theorem Sized.adjust {q : Threadpool} (hSized : Sized p) (hLow : p.mHardwareNum ≤ t)
    (hRun : p.adjust t = .ok q) (hBooked : Booked (.ok p)) (hHoles : p.Unhindered t) :
    Sized q ∧ q.mHardwareNum = p.mHardwareNum := by
  obtain ⟨hLive, -⟩ := booked_ok.mp hBooked
  have hHardware := hSized.hardware
  have hLowActive := hSized.low
  have hHigh := hSized.high
  rcases Nat.lt_trichotomy p.mActiveNum t with hMore | hSame | hLess
  · obtain ⟨q', hRun', hH, -, hActive, -⟩ := adjust_more_ok hSized hLive hMore (hHoles.1 hMore)
    rw [hRun, Except.ok.injEq] at hRun'
    subst hRun'
    exact ⟨⟨by omega, by omega, by omega⟩, hH⟩
  · rw [Threadpool.adjust] at hRun
    dsimp only at hRun
    rw [if_neg (by omega), if_neg (by omega), Except.ok.injEq] at hRun
    subst hRun
    exact ⟨⟨hHardware, hLowActive, hHigh⟩, rfl⟩
  · obtain ⟨q', hRun', hH, -, hActive, -⟩ := adjust_less hLive hLess hLow
    rw [hRun, Except.ok.injEq] at hRun'
    subst hRun'
    exact ⟨⟨by omega, by omega, by omega⟩, hH⟩

end

-- ---------------------------------------------------------------------------
-- Runs
-- ---------------------------------------------------------------------------

/-- What happens to a pool: the manager adjusts it, or a cancelled thread ends. A
thread that ends during an adjustment is seen by it or not, so it ends before or
behind it. -/
inductive PoolEvent where
  | adjust (expectation : Nat)
  | finish (i : Nat)
  deriving DecidableEq, Repr

/-- A fault ends the run. -/
def poolStep (r : Except PoolFault Threadpool) (e : PoolEvent) : Except PoolFault Threadpool :=
  match r, e with
  | .error f, _ => .error f
  | .ok p, .adjust t => p.adjust t
  | .ok p, .finish i => .ok (p.finish i)

/-- No hole gets in the way of the event. -/
def StepUnhindered (r : Except PoolFault Threadpool) (e : PoolEvent) : Prop :=
  ∀ p t, r = .ok p → e = .adjust t → p.Unhindered t

/-- The targets `getExpectationAndAdjust` asks for: no fewer than the hardware has. -/
def Targets (hardware : Nat) (es : List PoolEvent) : Prop :=
  ∀ t, .adjust t ∈ es → hardware ≤ t

/-- They are so on every time-out. -/
theorem getExpectationAndAdjust_target (p : Threadpool) (total n : Nat) (hCount : n ≠ 0) :
    ∃ t, p.mHardwareNum ≤ t ∧ p.getExpectationAndAdjust total n = p.adjust t := by
  refine ⟨p.mHardwareNum * (1 + total / n % 2 ^ 16), Nat.le_mul_of_pos_right _ (by omega), ?_⟩
  rw [getExpectationAndAdjust, if_neg hCount]

theorem count_modify_finish (threads : List RThread) (i : Nat) :
    (threads.modify i RThread.finish).count .running = threads.count .running := by
  induction threads generalizing i with
  | nil => simp
  | cons thd threads ih =>
    cases i with
    | zero => cases thd <;> simp [RThread.finish]
    | succ i => simp [List.count_cons, ih]

@[simp] theorem finish_live (p : Threadpool) (i : Nat) : (p.finish i).live = p.live :=
  count_modify_finish p.mThreads i

/-- A thread that ends is not in the books any more. -/
theorem finish_booked (p : Threadpool) (i : Nat) (h : Booked (.ok p)) :
    Booked (.ok (p.finish i)) := by
  obtain ⟨hLive, hExp⟩ := booked_ok.mp h
  exact booked_ok.mpr ⟨(finish_live p i).trans hLive, hExp⟩

/-- The constructor books the threads it makes. -/
theorem init_booked (hardware : Nat) : Booked (.ok (init hardware)) := by
  rw [booked_ok]
  exact ⟨by simp [live, init], fun h => absurd rfl h⟩

theorem init_sized {hardware : Nat} (hOne : 1 ≤ hardware) (hMax : hardware ≤ maxThreadsNum) :
    Sized (init hardware) := by
  have hActive : (init hardware).mActiveNum = hardware := if_pos hMax
  exact ⟨hOne, Nat.le_of_eq hActive.symm, by omega⟩

/-- What a run in order promises for the rest of it. -/
def Ready (r : Except PoolFault Threadpool) (es : List PoolEvent) : Prop :=
  ∃ p, r = .ok p ∧ Sized p ∧ Targets p.mHardwareNum es

/-- **Bookkeeping.** On a machine of `hardware` cores, after every event of a run whose
targets are at least `hardware`, exactly `mActiveNum` threads have not been cancelled,
`mActiveNum` is what the last adjustment asked for, and no counter has wrapped — exactly
if every adjustment is unhindered by holes. -/
theorem bookkeeping_iff (hardware : Nat) (hOne : 1 ≤ hardware) (hMax : hardware ≤ maxThreadsNum)
    (es : List PoolEvent) (hTargets : Targets hardware es) :
    Always poolStep Booked (.ok (init hardware)) es ↔
      Each poolStep StepUnhindered (.ok (init hardware)) es := by
  refine always_iff_each Ready ?_ ?_ (init_booked hardware)
    ⟨_, rfl, init_sized hOne hMax, hTargets⟩
  · rintro _ e es ⟨p, rfl, hSized, hRest⟩ hBooked hStep
    cases e with
    | adjust t =>
      have hLow : p.mHardwareNum ≤ t := hRest t List.mem_cons_self
      have hHoles : p.Unhindered t := hStep p t rfl rfl
      obtain ⟨q, hRun, -⟩ := (adjust_booked_iff hSized hBooked hLow).mpr hHoles
      obtain ⟨hSized', hHardware⟩ := hSized.adjust hLow hRun hBooked hHoles
      refine ⟨q, hRun, hSized', fun t' ht' => ?_⟩
      rw [hHardware]
      exact hRest t' (List.mem_cons_of_mem _ ht')
    | finish i =>
      exact ⟨p.finish i, rfl, ⟨hSized.hardware, hSized.low, hSized.high⟩,
        fun t ht => hRest t (List.mem_cons_of_mem _ ht)⟩
  · rintro _ e es ⟨p, rfl, hSized, hRest⟩ hBooked
    cases e with
    | adjust t =>
      have hLow : p.mHardwareNum ≤ t := hRest t List.mem_cons_self
      refine (adjust_booked_iff hSized hBooked hLow).trans ⟨fun h q t' hq ht' => ?_, fun h => ?_⟩
      · cases hq
        cases ht'
        exact h
      · exact h p t rfl rfl
    | finish i =>
      refine ⟨fun _ q t _ ht => ?_, fun _ => finish_booked p i hBooked⟩
      cases ht

/-- Four cores; expand to eight, shrink to four, and expand again: the new threads are
behind the holes, and the next shrink cancels the holes once more. -/
theorem bookkeeping_holes :
    ¬ Always poolStep Booked (.ok (init 4)) [.adjust 8, .adjust 4, .adjust 8, .adjust 4] := by
  intro h
  obtain ⟨p, hp, hLive, -⟩ := h.final
  have hRun : final poolStep (.ok (init 4))
      [.adjust 8, .adjust 4, .adjust 8, .adjust 4] =
      .ok { mHardwareNum := 4, mActiveNum := 4, mExpectation := 4
            mThreads := List.replicate 4 .running ++ List.replicate 4 .cancelled ++
              List.replicate 4 .running } := by decide
  rw [hRun] at hp
  cases hp
  revert hLive
  decide

/-- An expansion right behind the construction meets no hole. -/
theorem bookkeeping_iff_four :
    Targets 4 [.adjust 8] ∧
      (Always poolStep Booked (.ok (init 4)) [.adjust 8] ↔
        Each poolStep StepUnhindered (.ok (init 4)) [.adjust 8]) :=
  have hTargets : Targets 4 [.adjust 8] := by
    intro t ht
    simp at ht
    omega
  ⟨hTargets, bookkeeping_iff 4 (by decide) (by decide) [.adjust 8] hTargets⟩

end Threadpool

end WarringServer.Thread
