import WarringServer.Thread.Threadpool

/-!
# The time-outs of the pool's manager

`Threadpool::work` counts the results of the workers until a timer sets
`mAdjustThdNumTimeout`. Then it divides by what it has counted, adjusts the pool, counts from
zero again and resets the flag. Nothing keeps the timer from setting the flag before the
first result is there.

* `NoDivision` — the adjustment itself divides by nothing else;
* `Guarded.step` — time-outs that find a result, or come before the flag is reset, do no harm;
* `no_division_iff` — any other one makes the manager divide by zero.

`mIsAdjustThreadNum` stays set and `mIsCollectThreadState` unset, so that the wait of the loop
ends at once. The counter of results does not come to its limit.
-/

namespace WarringServer.Thread

open Run

/-- Where `work` stands: before the statement of that name. -/
inductive ManagerPc where
  /-- `while (mRunning)` -/
  | loop
  /-- `mAdjustThdNumTimeout`, as an argument of `getExpectationAndAdjust` -/
  | read
  /-- `mResults->waitAndPop(res)`, and the counters -/
  | waitAndPop
  /-- `ratio = total / n`, and what the pool does about it -/
  | adjust
  /-- `total = n = 0` -/
  | clear
  /-- `resetAdjustThdNumTimeout()` -/
  | reset
  deriving DecidableEq, Repr

/-- The manager's loop. A pool with a fault has ended the process. -/
structure Manager where
  pool : Except PoolFault Threadpool
  mAdjustThdNumTimeout : Bool
  mResults : List (BitVec 16)
  total : Nat
  n : Nat
  pc : ManagerPc

inductive ManagerEvent where
  /-- The timer, at any time. -/
  | adjustThdNumTimeoutNotify
  /-- A worker has a result. -/
  | push (res : BitVec 16)
  /-- The next statement of `work`. -/
  | work
  deriving DecidableEq, Repr

namespace Manager

def new (pool : Threadpool) : Manager where
  pool := .ok pool
  mAdjustThdNumTimeout := false
  mResults := []
  total := 0
  n := 0
  pc := .loop

def work (s : Manager) : Manager :=
  match s.pool with
  | .error _ => s
  | .ok pool =>
    match s.pc with
    | .loop => { s with pc := .read }
    | .read => { s with pc := if s.mAdjustThdNumTimeout then .adjust else .waitAndPop }
    | .waitAndPop =>
      match s.mResults with
      | [] => s
      | res :: results =>
        { s with mResults := results, total := s.total + res.toNat, n := s.n + 1, pc := .loop }
    | .adjust =>
      match pool.getExpectationAndAdjust s.total s.n with
      | .error fault => { s with pool := .error fault }
      | .ok pool => { s with pool := .ok pool, pc := .clear }
    | .clear => { s with total := 0, n := 0, pc := .reset }
    | .reset => { s with mAdjustThdNumTimeout := false, pc := .loop }

def step (s : Manager) : ManagerEvent → Manager
  | .adjustThdNumTimeoutNotify => { s with mAdjustThdNumTimeout := true }
  | .push res => { s with mResults := s.mResults ++ [res] }
  | .work => s.work

/-- The time-out branch is taken with a result counted, and nothing was divided by zero. -/
def Safe (s : Manager) : Prop :=
  (s.pc = .adjust → 1 ≤ s.n) ∧ s.pool ≠ .error .divisionByZero

/-- No result is counted, and the flag is read before that changes. -/
def Exposed (s : Manager) : Prop := s.n = 0 ∧ (s.pc = .loop ∨ s.pc = .read)

/-- The timer stays away while the manager is exposed. -/
def Timely (s : Manager) : ManagerEvent → Prop
  | .adjustThdNumTimeoutNotify => ¬ s.Exposed
  | .push _ | .work => True

end Manager

-- ---------------------------------------------------------------------------
-- The adjustment
-- ---------------------------------------------------------------------------

/-- Whatever else ends a computation, it is not a division by zero. -/
def NoDivision {α : Type} (r : Except PoolFault α) : Prop := r ≠ .error .divisionByZero

section

variable {α β : Type}

theorem noDivision_ok (a : α) : NoDivision (.ok a : Except PoolFault α) := fun h => nomatch h

theorem NoDivision.bind {r : Except PoolFault α} {f : α → Except PoolFault β} (hFirst : NoDivision r)
    (hThen : ∀ a, NoDivision (f a)) : NoDivision (r >>= f) := by
  cases r with
  | error fault => exact fun h => hFirst (congrArg Except.error (Except.error.inj h))
  | ok a => exact hThen a

end

theorem noDivision_sub (a b : Nat) : NoDivision (sub a b) := by
  unfold sub
  split
  · exact noDivision_ok _
  · exact fun h => nomatch h

namespace Threadpool

theorem noDivision_fillHole (s : Filling) (i : Nat) : NoDivision (fillHole s i) := by
  unfold fillHole
  split
  · exact fun h => nomatch h
  · exact (noDivision_sub s.n 1).bind fun n => noDivision_ok _
  · exact noDivision_ok s

theorem noDivision_fillHoles (s : Filling) (i k : Nat) : NoDivision (fillHoles s i k) := by
  induction k generalizing s i with
  | zero => exact noDivision_ok s
  | succ k ih => exact (noDivision_fillHole s i).bind fun s => ih s (i + 1)

theorem noDivision_expandThreads (p : Threadpool) (num : Nat) : NoDivision (p.expandThreads num) := by
  unfold expandThreads
  refine NoDivision.bind ?_ fun n => (noDivision_fillHoles _ _ _).bind fun s => noDivision_ok _
  split
  · exact noDivision_sub _ _
  · exact noDivision_ok num

theorem noDivision_cancelAt (threads : List RThread) (i : Nat) : NoDivision (cancelAt threads i) := by
  unfold cancelAt
  split
  · exact fun h => nomatch h
  · exact noDivision_ok _

theorem noDivision_cancelDown (threads : List RThread) (i k : Nat) :
    NoDivision (cancelDown threads i k) := by
  induction k generalizing threads with
  | zero => exact noDivision_ok threads
  | succ k ih => exact (noDivision_cancelAt threads (i + k)).bind fun threads => ih threads

theorem noDivision_shrinkThreads (p : Threadpool) (num : Nat) : NoDivision (p.shrinkThreads num) := by
  unfold shrinkThreads
  refine (noDivision_sub _ _).bind ?_
  intro n
  split
  · exact noDivision_ok p
  · exact (noDivision_cancelDown _ _ _).bind fun threads => noDivision_ok _

/-- The one division is that by the counter. -/
theorem noDivision_getExpectationAndAdjust (p : Threadpool) (total : Nat) {n : Nat} (hCount : 1 ≤ n) :
    NoDivision (p.getExpectationAndAdjust total n) := by
  rw [getExpectationAndAdjust, if_neg (by omega)]
  dsimp only [adjust]
  split
  · exact noDivision_expandThreads _ _
  · split
    · exact noDivision_shrinkThreads _ _
    · exact noDivision_ok _

end Threadpool

-- ---------------------------------------------------------------------------
-- Steps
-- ---------------------------------------------------------------------------

namespace Manager

/-- What keeps the manager safe: the flag is not set while it is exposed. -/
structure Guarded (s : Manager) : Prop where
  counted : s.pc = .adjust → 1 ≤ s.n
  flagged : s.mAdjustThdNumTimeout = true → ¬ s.Exposed
  fault : ∀ fault, s.pool = .error fault → fault ≠ .divisionByZero ∧ s.pc = .adjust

variable {s : Manager} {e : ManagerEvent}

theorem guarded_new (pool : Threadpool) : (new pool).Guarded where
  counted hPc := nomatch hPc
  flagged hFlag := nomatch hFlag
  fault _ hPool := nomatch hPool

theorem Guarded.safe (h : s.Guarded) : s.Safe :=
  ⟨h.counted, fun hPool => (h.fault _ hPool).1 rfl⟩

theorem not_exposed (hLoop : s.pc ≠ .loop) (hRead : s.pc ≠ .read) : ¬ s.Exposed := by
  rintro ⟨-, hAt | hAt⟩
  · exact hLoop hAt
  · exact hRead hAt

theorem Guarded.work (h : s.Guarded) : s.work.Guarded := by
  unfold Manager.work
  cases hPool : s.pool with
  | error fault => exact h
  | ok pool =>
    dsimp only
    cases hPc : s.pc with
    | loop =>
      refine ⟨nofun, fun hFlag hExposed => ?_, nofun⟩
      exact h.flagged hFlag ⟨hExposed.1, Or.inl hPc⟩
    | read =>
      -- the flag decides, and is set only if there is a result
      dsimp only
      split
      · rename_i hFlag
        refine ⟨fun _ => ?_, fun _ => not_exposed nofun nofun, nofun⟩
        exact Nat.one_le_iff_ne_zero.mpr fun hZero => h.flagged hFlag ⟨hZero, Or.inr hPc⟩
      · exact ⟨nofun, fun _ => not_exposed nofun nofun, nofun⟩
    | waitAndPop =>
      dsimp only
      split
      · exact h
      · exact ⟨nofun, fun _ hExposed => (nomatch hExposed.1), nofun⟩
    | adjust =>
      have hCounted := h.counted hPc
      have hDivides := Threadpool.noDivision_getExpectationAndAdjust pool s.total hCounted
      dsimp only
      cases hAdjust : pool.getExpectationAndAdjust s.total s.n with
      | error fault =>
        refine ⟨fun _ => hCounted, fun _ => not_exposed nofun nofun,
          fun fault' hFault => ⟨?_, rfl⟩⟩
        rintro rfl
        exact hDivides (hAdjust.trans hFault)
      | ok pool' =>
        exact ⟨nofun, fun _ => not_exposed nofun nofun, nofun⟩
    | clear =>
      exact ⟨nofun, fun _ => not_exposed nofun nofun, nofun⟩
    | reset =>
      exact ⟨nofun, nofun, nofun⟩

/-- **One event** that is timely keeps the guard. -/
theorem Guarded.step (h : s.Guarded) (hTimely : s.Timely e) : (s.step e).Guarded := by
  cases e with
  | adjustThdNumTimeoutNotify => exact ⟨h.counted, fun _ => hTimely, h.fault⟩
  | push res => exact ⟨h.counted, h.flagged, h.fault⟩
  | work => exact h.work

/-- A time-out that was not timely. -/
structure Doomed (s : Manager) : Prop where
  running : ∃ pool, s.pool = .ok pool
  flag : s.mAdjustThdNumTimeout = true
  exposed : s.Exposed

theorem Doomed.work_read (h : s.Doomed) (hPc : s.pc = .read) : ¬ s.work.Safe := by
  obtain ⟨pool, hPool⟩ := h.running
  rintro ⟨hCounted, -⟩
  have hWork : s.work = { s with pc := .adjust } := by
    simp only [work, hPool, hPc, h.flag, if_true]
  rw [hWork] at hCounted
  have hOne : 1 ≤ s.n := hCounted rfl
  rw [h.exposed.1] at hOne
  exact absurd hOne (by decide)

theorem Doomed.work_loop (h : s.Doomed) (hPc : s.pc = .loop) :
    s.work.Doomed ∧ s.work.pc = .read := by
  obtain ⟨pool, hPool⟩ := h.running
  have hWork : s.work = { s with pc := .read } := by simp only [work, hPool, hPc]
  rw [hWork]
  exact ⟨⟨⟨pool, hPool⟩, h.flag, h.exposed.1, Or.inr rfl⟩, rfl⟩

/-- After such a time-out, two steps of the loop are enough. -/
theorem Doomed.not_always (h : s.Doomed) (es : List ManagerEvent) :
    ¬ Always step Safe s (es ++ [.work, .work]) := by
  induction es generalizing s with
  | nil =>
    rintro ⟨-, hFirst, hSecond⟩
    rcases h.exposed.2 with hPc | hPc
    · obtain ⟨hDoomed, hRead⟩ := h.work_loop hPc
      exact hDoomed.work_read hRead hSecond
    · exact h.work_read hPc hFirst
  | cons e es ih =>
    rintro ⟨-, hRest⟩
    cases e with
    | adjustThdNumTimeoutNotify =>
      have hDoomed : (s.step .adjustThdNumTimeoutNotify).Doomed := ⟨h.running, rfl, h.exposed⟩
      exact ih hDoomed hRest
    | push res =>
      have hDoomed : (s.step (.push res)).Doomed := ⟨h.running, h.flag, h.exposed⟩
      exact ih hDoomed hRest
    | work =>
      rcases h.exposed.2 with hPc | hPc
      · exact ih (h.work_loop hPc).1 hRest
      · exact h.work_read hPc hRest.start

-- ---------------------------------------------------------------------------
-- Runs
-- ---------------------------------------------------------------------------

theorem Guarded.always (h : s.Guarded) {es : List ManagerEvent}
    (hEach : Each Manager.step Timely s es) : Always Manager.step Safe s es := by
  have hGuarded : Always Manager.step Guarded s es :=
    always_of_each (fun _ _ => True) (fun _ _ _ _ _ _ => trivial)
      (fun s e _ _ h hTimely => h.step hTimely) h trivial hEach
  exact hGuarded.imp fun s h => h.safe

theorem Guarded.each (h : s.Guarded) {es : List ManagerEvent}
    (hAlways : Always Manager.step Safe s (es ++ [.work, .work])) :
    Each Manager.step Timely s es := by
  induction es generalizing s with
  | nil => trivial
  | cons e es ih =>
    have hTimely : s.Timely e := by
      cases e with
      | push res => trivial
      | work => trivial
      | adjustThdNumTimeoutNotify =>
        intro hExposed
        have hRunning : ∃ pool, s.pool = .ok pool := by
          cases hPool : s.pool with
          | ok pool => exact ⟨pool, rfl⟩
          | error fault =>
            rw [Exposed, (h.fault fault hPool).2] at hExposed
            exact absurd hExposed (by simp)
        have hDoomed : (s.step .adjustThdNumTimeoutNotify).Doomed := ⟨hRunning, rfl, hExposed⟩
        exact hDoomed.not_always es hAlways.2
    exact ⟨hTimely, ih (h.step hTimely) hAlways.2⟩

/-- **No division by zero**, whatever the manager does next, exactly if no time-out comes while
it is exposed. -/
theorem no_division_iff (pool : Threadpool) (es : List ManagerEvent) :
    Always step Safe (new pool) (es ++ [.work, .work]) ↔ Each step Timely (new pool) es := by
  constructor
  · exact (guarded_new pool).each
  · intro hEach
    refine (guarded_new pool).always (each_append.mpr ⟨hEach, trivial, trivial, trivial⟩)

/-- A result, a time-out, and another one behind the reset. -/
theorem divides_by_zero : ¬ ∀ (pool : Threadpool) (es : List ManagerEvent),
    Always step Safe (new pool) es := by
  intro h
  have hSafe := (h (.init 1) [.work, .work, .push 3, .work, .adjustThdNumTimeoutNotify, .work, .work,
    .work, .work, .work, .adjustThdNumTimeoutNotify, .work, .work, .work]).final
  exact hSafe.2 rfl

end Manager

end WarringServer.Thread
