import WarringServer.Lib.Run
import WarringServer.Thread.Worker

/-!
# The load limit of a worker

`addByLevel` adds nothing where the local queue is full to eight tenths, and a batch of
`mLightweight` or `mMiddleweight` tasks where it is not, with at most half of the limit at a
time. A batch of `mLightweight` may be more than what is left of the limit.

* `Bounded.step` — if that batch fits above the longest queue that gets one, no step passes the
  limit;
* `final_batch` — a batch comes as a whole;
* `load_limit_iff` — so that the limit is kept exactly where the batch fits.
-/

namespace WarringServer.Thread

/-- The tasks that `addTasks(p, false, n)` adds at most. -/
def batch (n maxLoadSize : Nat) : Nat := if n < 2 then n else min n (maxLoadSize / 2)

namespace Worker

/-- The tasks that are on their way to the local queue, or will be without another look at
how full it is. -/
def pending (w : Worker) : Nat :=
  match w.pc with
  | .waitAndPop => 1
  | .push _ _ => 1
  | .addTasks n => batch n w.mMaxLoadSize
  | .popOne => 1
  | .popN x => x
  | .pushTemp temp => temp.length
  | _ => 0

/-- Nothing is on its way to the local queue, and a wait for a task is for an empty queue. -/
def Settled (w : Worker) : Prop :=
  match w.pc with
  | .waitAndPop => w.mTasks = []
  | .push _ _ | .addTasks _ | .popOne | .popN _ | .pushTemp _ => False
  | _ => True

/-- The command `UPDATE_DATA`. -/
def updateMember (w : Worker) (maxLoadSize middleweightDiv lightweightDiv : Nat) (linked : Bool) :
    Worker :=
  (Command.updateMember maxLoadSize middleweightDiv lightweightDiv linked).statements.foldl
    execute w

/-- One statement of `work`, with any external queue. -/
def stepWith (w : Worker) (e : Bool × List Task) : Worker := (w.step exactLevel e.1 e.2).1

end Worker

/-- After an `UPDATE_DATA` that finds the local queue within the limit, and nothing on the way
to it, the queue stays within the limit. -/
def LoadLimited (maxLoadSize middleweightDiv lightweightDiv : Nat) : Prop :=
  ∀ (w : Worker) (linked : Bool) (es : List (Bool × List Task)), w.Settled →
    w.mTasks.length ≤ maxLoadSize →
    Run.Always Worker.stepWith (fun w => w.mTasks.length ≤ maxLoadSize)
      (w.updateMember maxLoadSize middleweightDiv lightweightDiv linked) es

-- ---------------------------------------------------------------------------
-- Batches
-- ---------------------------------------------------------------------------

/-- The longest queue that is not full to eight tenths, and the batch for it. -/
def Fits (maxLoadSize lightweightDiv : Nat) : Prop :=
  (4 * maxLoadSize - 1) / 5 + min (maxLoadSize / lightweightDiv) (maxLoadSize / 2) ≤ maxLoadSize

/-- A batch for a queue below two tenths always fits. -/
theorem low_room {size m : Nat} (n : Nat) (h : exactLevel size m = .low) :
    size + batch n m ≤ m := by
  have hLow : 10 * size < 2 * m := by
    unfold exactLevel at h
    split at h
    · cases h
    · split at h
      · cases h
      · omega
  unfold batch
  split
  · omega
  · have hHalf := Nat.min_le_right n (m / 2)
    omega

theorem middle_room {size m d : Nat} (hFits : Fits m d) (h : exactLevel size m = .middle) :
    size + batch (m / d) m ≤ m := by
  have hMiddle : 10 * size < 8 * m := by
    unfold exactLevel at h
    split at h
    · cases h
    · omega
  unfold Fits at hFits
  unfold batch
  split
  · omega
  · omega

-- ---------------------------------------------------------------------------
-- The limit is kept
-- ---------------------------------------------------------------------------

namespace Worker

/-- The members of an `UPDATE_DATA`, and room for all that is on the way. -/
structure Bounded (w : Worker) (m lightweightDiv : Nat) : Prop where
  size : w.mMaxLoadSize = m
  lightweight : w.mLightweight = m / lightweightDiv
  room : w.mTasks.length + w.pending ≤ m

variable {w : Worker} {m d : Nat}

theorem Bounded.length_le (h : w.Bounded m d) : w.mTasks.length ≤ m :=
  Nat.le_trans (Nat.le_add_right ..) h.room

theorem bounded_updateMember (d₁ : Nat) (linked : Bool) (hPositive : 1 ≤ m)
    (hSettled : w.Settled) (hTasks : w.mTasks.length ≤ m) :
    (w.updateMember m d₁ d linked).Bounded m d := by
  refine ⟨rfl, rfl, ?_⟩
  have hPc : (w.updateMember m d₁ d linked).pc = w.pc := rfl
  show w.mTasks.length + (w.updateMember m d₁ d linked).pending ≤ m
  unfold Settled at hSettled
  unfold pending
  rw [hPc]
  split at hSettled
  · rw [hSettled]
    exact hPositive
  all_goals first
    | exact hSettled.elim
    | simp_all

/-- The queue is looked at here, and nowhere else. -/
theorem Bounded.addByLevel (h : w.Bounded m d) (hFits : Fits m d) (hPc : w.pc = .addByLevel)
    (e : Bool × List Task) : (w.stepWith e).Bounded m d := by
  obtain ⟨hSize, hLight, hRoom⟩ := h
  have hTasks : w.mTasks.length ≤ m := Nat.le_trans (Nat.le_add_right ..) hRoom
  unfold stepWith Worker.step
  rw [hPc]
  dsimp only
  split
  · cases hLevel : exactLevel w.mTasks.length w.mMaxLoadSize with
    | high => exact ⟨hSize, hLight, hTasks⟩
    | middle =>
      refine ⟨hSize, hLight, ?_⟩
      rw [hSize] at hLevel
      show w.mTasks.length + batch w.mLightweight w.mMaxLoadSize ≤ m
      rw [hSize, hLight]
      exact middle_room hFits hLevel
    | low =>
      refine ⟨hSize, hLight, ?_⟩
      rw [hSize] at hLevel
      show w.mTasks.length + batch w.mMiddleweight w.mMaxLoadSize ≤ m
      rw [hSize]
      exact low_room w.mMiddleweight hLevel
  · exact ⟨hSize, hLight, hTasks⟩

/-- A batch is what was reckoned with. -/
theorem Bounded.addTasks (h : w.Bounded m d) {n : Nat} (hPc : w.pc = .addTasks n)
    (e : Bool × List Task) : (w.stepWith e).Bounded m d := by
  obtain ⟨hSize, hLight, hRoom⟩ := h
  unfold pending at hRoom
  rw [hPc] at hRoom
  dsimp only at hRoom
  unfold batch at hRoom
  unfold stepWith Worker.step
  rw [hPc]
  refine ⟨hSize, hLight, ?_⟩
  unfold pending
  dsimp only
  rcases Nat.lt_trichotomy n 1 with hNone | rfl | hMore
  · rw [if_pos hNone]
    exact Nat.le_trans (Nat.le_add_right ..) hRoom
  · exact hRoom
  · rw [if_neg (by omega), if_neg (by omega)]
    rwa [if_neg (by omega)] at hRoom

/-- **One step** adds only what there is room for. -/
theorem Bounded.step (h : w.Bounded m d) (hPositive : 1 ≤ m) (hFits : Fits m d)
    (e : Bool × List Task) : (w.stepWith e).Bounded m d := by
  have hSize := h.size
  have hLight := h.lightweight
  have hRoom := h.room
  unfold pending at hRoom
  rcases hPc : w.pc with _ | _ | _ | _ | _ | drain | ⟨drain, popped⟩ | _ | ⟨wait, task⟩ | _ | n |
    _ | x | temp | _ | _ | _ | _
  case addByLevel => exact h.addByLevel hFits hPc e
  case addTasks => exact h.addTasks hPc e
  all_goals
    simp only [hPc] at hRoom
    unfold stepWith Worker.step
    rw [hPc]
  case waitAndPop =>
    rcases e.2 with _ | ⟨task, external⟩
    · dsimp only
      split
      · exact ⟨hSize, hLight, Nat.le_of_succ_le hRoom⟩
      · exact ⟨hSize, hLight, hRoom⟩
    · exact ⟨hSize, hLight, hRoom⟩
  case push =>
    refine ⟨hSize, hLight, ?_⟩
    cases wait with
    | true => simpa [pending] using hRoom
    | false => simpa [pending] using hRoom
  case popOne =>
    rcases e.2 with _ | ⟨task, external⟩
    · exact ⟨hSize, hLight, Nat.le_of_succ_le hRoom⟩
    · exact ⟨hSize, hLight, hRoom⟩
  case popN =>
    refine ⟨hSize, hLight, ?_⟩
    have hTake : (e.2.take x).length ≤ x := List.length_take_le x e.2
    show w.mTasks.length + (e.2.take x).length ≤ m
    omega
  case pushTemp =>
    rcases temp with _ | ⟨task, temp⟩
    · exact ⟨hSize, hLight, hRoom⟩
    · refine ⟨hSize, hLight, ?_⟩
      rw [List.length_cons] at hRoom
      show (w.mTasks ++ [task]).length + temp.length ≤ m
      rw [List.length_append, List.length_singleton]
      omega
  case test =>
    dsimp only
    split
    · exact ⟨hSize, hLight, hRoom⟩
    · rename_i hEmpty
      rw [ne_eq, not_not] at hEmpty
      split
      · refine ⟨hSize, hLight, ?_⟩
        show w.mTasks.length + 1 ≤ m
        rw [hEmpty]
        exact hPositive
      · exact ⟨hSize, hLight, hRoom⟩
  case pop =>
    dsimp only
    cases hTasks : w.mTasks with
    | nil => exact ⟨hSize, hLight, Nat.zero_le m⟩
    | cons task tasks =>
      rw [hTasks, List.length_cons] at hRoom
      exact ⟨hSize, hLight, Nat.le_of_succ_le hRoom⟩
  -- the rest of the statements change the place in the code, or a flag
  case loop | pause | wipe | drain | invoke =>
    dsimp only
    split
    all_goals exact ⟨hSize, hLight, hRoom⟩
  case start | lock | inactive => exact ⟨hSize, hLight, hRoom⟩
  case returned => exact ⟨hSize, hLight, by simpa [pending, hPc] using hRoom⟩

-- ---------------------------------------------------------------------------
-- The limit is passed
-- ---------------------------------------------------------------------------

/-- A worker that has run a task, with `size` tasks left and a link to the external queue. -/
def midway (size : Nat) : Worker :=
  { new with mRunning := true, mTasks := List.replicate size 0, linked := true, pc := .addByLevel,
             p := true }

/-- The steps that bring a batch of `n` tasks: three to fetch it, and one for each task. -/
def batchSteps (n : Nat) : List (Bool × List Task) :=
  List.replicate (3 + n) (false, List.replicate n 0)

theorem pushTemp_length {w : Worker} {temp : List Task} (hPc : w.pc = .pushTemp temp)
    (e : Bool × List Task) :
    (Run.final stepWith w (List.replicate temp.length e)).mTasks.length =
      w.mTasks.length + temp.length := by
  induction temp generalizing w with
  | nil => rfl
  | cons task temp ih =>
    have hStep : w.stepWith e =
        { w with mTasks := w.mTasks ++ [task], moved := w.moved ++ [task], pc := .pushTemp temp } := by
      simp only [stepWith, Worker.step, hPc]
    rw [List.length_cons, List.replicate_succ, Run.final_cons, ih (by rw [hStep]), hStep,
      List.length_append, List.length_singleton]
    omega

/-- A batch of the middle level comes as a whole. -/
theorem final_batch {w : Worker} {n : Nat} (hPc : w.pc = .addByLevel) (hP : w.p = true)
    (hLevel : exactLevel w.mTasks.length w.mMaxLoadSize = .middle) (hLight : 2 ≤ w.mLightweight)
    (hBatch : min w.mLightweight (w.mMaxLoadSize / 2) = n) :
    (Run.final stepWith w (batchSteps n)).mTasks.length = w.mTasks.length + n := by
  obtain ⟨e, he⟩ : ∃ e : Bool × List Task, e = (false, List.replicate n 0) := ⟨_, rfl⟩
  have hAdd : w.stepWith e = { w with pc := .addTasks w.mLightweight } := by
    simp only [stepWith, Worker.step, hPc, if_pos hP, hLevel]
  have hPop : (w.stepWith e).stepWith e = { w with pc := .popN n } := by
    rw [hAdd]
    simp only [stepWith, Worker.step]
    rw [if_neg (by omega), if_neg (by omega), hBatch]
  have hFetch : ((w.stepWith e).stepWith e).stepWith e =
      { w with pc := .pushTemp (List.replicate n 0) } := by
    rw [hPop]
    simp only [stepWith, Worker.step, he, List.take_replicate, Nat.min_self]
  rw [batchSteps, ← he, List.replicate_add, Run.final_append]
  show (Run.final stepWith (((w.stepWith e).stepWith e).stepWith e) _).mTasks.length = _
  rw [hFetch]
  have hLength := pushTemp_length (w := { w with pc := .pushTemp (List.replicate n 0) }) rfl e
  rwa [List.length_replicate] at hLength

end Worker

/-- **The load limit** holds exactly for the limits and divisors with room for a batch above
the longest queue that still gets one. `UPDATE_DATA` is one event here, with nothing on its way to
the local queue then, and the divisors it comes with are 1 or more: a division by 0 ends the
process. -/
theorem load_limit_iff (maxLoadSize middleweightDiv lightweightDiv : Nat)
    (hPositive : 1 ≤ maxLoadSize) :
    LoadLimited maxLoadSize middleweightDiv lightweightDiv ↔
      (4 * maxLoadSize - 1) / 5 + min (maxLoadSize / lightweightDiv) (maxLoadSize / 2) ≤
        maxLoadSize := by
  constructor
  · intro h
    by_contra hPast
    obtain ⟨size, hLongest⟩ : ∃ size, (4 * maxLoadSize - 1) / 5 = size := ⟨_, rfl⟩
    obtain ⟨n, hBatch⟩ : ∃ n, min (maxLoadSize / lightweightDiv) (maxLoadSize / 2) = n := ⟨_, rfl⟩
    rw [hLongest, hBatch] at hPast
    have hFull := (h (.midway size) true (Worker.batchSteps n) trivial (by
      show (List.replicate size 0).length ≤ maxLoadSize
      rw [List.length_replicate]
      omega)).final
    have hLength : ((Worker.midway size).updateMember maxLoadSize middleweightDiv lightweightDiv
        true).mTasks.length = size := List.length_replicate
    have hLevel : exactLevel size maxLoadSize = .middle := by
      unfold exactLevel
      rw [if_neg (by omega), if_pos (by omega)]
    rw [Worker.final_batch rfl rfl (by rw [hLength]; exact hLevel)
      (show 2 ≤ maxLoadSize / lightweightDiv by omega) hBatch, hLength] at hFull
    exact hPast hFull
  · intro hFits w linked es hSettled hTasks
    have hBounded := Worker.bounded_updateMember (d := lightweightDiv) middleweightDiv linked
      hPositive hSettled hTasks
    have hAlways : Run.Always Worker.stepWith (fun w => w.Bounded maxLoadSize lightweightDiv)
        (w.updateMember maxLoadSize middleweightDiv lightweightDiv linked) es :=
      Run.always_of_step (fun w e h => h.step hPositive hFits e) hBounded
    exact hAlways.imp fun w h => h.length_le

/-- The limit and the divisors that a thread starts with. -/
theorem load_limit_ten : LoadLimited 10 2 4 := (load_limit_iff 10 2 4 (by decide)).mpr (by decide)

/-- Seven tasks, and five more. -/
theorem not_load_limited : ¬ ∀ maxLoadSize middleweightDiv lightweightDiv, 1 ≤ maxLoadSize →
    1 ≤ middleweightDiv → 1 ≤ lightweightDiv →
      LoadLimited maxLoadSize middleweightDiv lightweightDiv := by
  intro h
  have hFull := (h 10 2 2 (by decide) (by decide) (by decide) (.midway 7) true
    (Worker.batchSteps 5) trivial (by decide)).final
  exact absurd hFull (by decide)

end WarringServer.Thread
