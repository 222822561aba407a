import Mathlib.Data.Prod.Lex
import Mathlib.Order.WellFounded
import WarringServer.Lib.Fairness
import WarringServer.Thread.WorkerPool

/-!
# Every task is run

The pool exists to run the tasks that are pushed. A worker does so if it finds the external
queue when it looks for it first; one that is linked later has returned by then. What is
in the external queue is fetched by such a worker, if by no other, since between two fetches it
runs what it has in its local queue; and what a worker has fetched it runs.

* `Worker.Outcome` — what a turn of a worker achieves;
* `fetched` — a task leaves the external queue;
* `run_of_held` — a task that a worker has is run;
* `tasks_run_iff` — in every fair schedule, the tasks that are pushed are all run if and only if
  some worker has been linked in time, or nothing is ever pushed.

The commands link workers, let them go on and change their bounds; none stops, cancels or
unlinks one, or divides by 0, which ends the process.
-/

namespace WarringServer.Thread

open Run

-- ---------------------------------------------------------------------------
-- Commands that leave the workers at work
-- ---------------------------------------------------------------------------

def Statement.Keeps : Statement → Prop
  | .setStop stop => stop = false
  | .link linked => linked = true
  | .halt | .setWipe | .clear => False
  | .setMaxLoadSize _ => True
  | .divMiddleweight div | .divLightweight div => div ≠ 0

instance : DecidablePred Statement.Keeps
  | .setStop stop => inferInstanceAs (Decidable (stop = false))
  | .link linked => inferInstanceAs (Decidable (linked = true))
  | .halt | .setWipe | .clear => isFalse id
  | .setMaxLoadSize _ => isTrue trivial
  | .divMiddleweight div | .divLightweight div => inferInstanceAs (Decidable (div ≠ 0))

def Command.Keeps (command : Command) : Prop := ∀ statement ∈ command.statements, statement.Keeps

instance : DecidablePred Command.Keeps := fun command =>
  inferInstanceAs (Decidable (∀ statement ∈ command.statements, statement.Keeps))

-- ---------------------------------------------------------------------------
-- A worker's turn
-- ---------------------------------------------------------------------------

/-- How far the worker is from its next call, or its next wait. -/
def Pc.rank : Pc → Nat
  | .start => 12
  | .push true _ => 11
  | .addByLevel => 10
  | .addTasks _ => 9
  | .popOne | .popN _ => 8
  | .push false _ | .pushTemp _ => 7
  | .loop => 6
  | .pause => 5
  | .lock => 4
  | .test => 3
  | .pop _ => 2
  | .invoke _ _ | .waitAndPop => 1
  | .wipe | .drain | .inactive | .returned => 0

/-- The loop of `work`, or its early end. -/
def Pc.InLoop : Pc → Prop
  | .pop inDrain | .invoke inDrain _ => inDrain = false
  | .wipe | .drain | .inactive => False
  | _ => True

namespace Worker

/-- The tasks a worker has and has not run, the oldest first. -/
def held (w : Worker) : List Task := w.current ++ w.mTasks ++ w.transit

/-- A worker that is not told to leave its loop. -/
structure Regular (w : Worker) : Prop extends w.Valid where
  inLoop : w.pc.InLoop
  running : w.pc ≠ .start → w.mRunning = true
  going : w.mStop = false
  waiting : w.pc = .waitAndPop → w.mTasks = []
  ended : w.pc = .returned → w.mTasks = []

/-- What a turn of a worker achieves, for it and for the external queue. -/
inductive Outcome (w : Worker) (external : List Task) : Worker → List Task → Prop where
  /-- It comes nearer to the next call or wait. -/
  | onward {w' : Worker} (hHeld : w'.held = w.held) (hExecuted : w'.executed = w.executed)
      (hRank : w'.pc.rank < w.pc.rank ∨
        w'.pc.rank = w.pc.rank ∧ w'.transit.length < w.transit.length) :
      Outcome w external w' external
  | fetch {w' : Worker} (n : Nat) (hn : 0 < n) (hExternal : external ≠ [])
      (hHeld : w'.held = w.held ++ external.take n) (hExecuted : w'.executed = w.executed)
      (hRank : w.held = [] ∨ w'.pc.rank < w.pc.rank) : Outcome w external w' (external.drop n)
  | call {w' : Worker} (task : Task) (hHeld : w.held = task :: w'.held)
      (hExecuted : w'.executed = w.executed ++ [task]) : Outcome w external w' external
  /-- It has nothing to do. -/
  | idle {w' : Worker} (hHeld : w.held = []) (hHeld' : w'.held = [])
      (hExecuted : w'.executed = w.executed)
      (hIdle : external = [] ∨ w.pc = .returned ∨ w.pc = .test ∧ w.p = false) :
      Outcome w external w' external

variable {w : Worker} {loadLevel : Nat → Nat → Level} {timeout : Bool} {external : List Task}

theorem regular_new : new.Regular where
  toValid := valid_new
  inLoop := trivial
  running h := absurd rfl h
  going := rfl
  waiting h := by simp [new] at h
  ended h := by simp [new] at h

/-- **A turn**, said once for all statements of the loop. -/
theorem Regular.outcome (h : w.Regular) (loadLevel : Nat → Nat → Level) (timeout : Bool)
    (external : List Task) : w.Outcome external (w.step loadLevel timeout external).1
      (w.step loadLevel timeout external).2 := by
  obtain ⟨mRunning, mStop, mInactive, mWipe, mMaxLoadSize, mMiddleweight, mLightweight, mTasks,
    linked, pc, p, taskWithFut, invoked, moved⟩ := w
  obtain ⟨hValid, hLoop, hRunning, hGoing, hWaiting, hOver⟩ := h
  dsimp only at hLoop hRunning hGoing hWaiting hOver
  subst hGoing
  unfold step
  rcases pc with _ | _ | _ | _ | _ | inDrain | ⟨inDrain, popped⟩ | _ | ⟨_ | _, task⟩ | _ | n | _ |
    x | temp | _ | _ | _ | _
  case start => exact .onward rfl rfl (Or.inl (by simp [Pc.rank]))
  case loop =>
    rw [hRunning (by simp)]
    exact .onward rfl rfl (Or.inl (by simp [Pc.rank]))
  case pause => exact .onward rfl rfl (Or.inl (by simp [Pc.rank]))
  case lock => exact .onward rfl rfl (Or.inl (by simp [Pc.rank]))
  case test =>
    rcases mTasks with _ | ⟨task, tasks⟩
    · rcases p with _ | _
      · exact .idle rfl rfl rfl (Or.inr (Or.inr ⟨rfl, rfl⟩))
      · exact .onward rfl rfl (Or.inl (by simp [Pc.rank]))
    · exact .onward rfl rfl (Or.inl (by simp [Pc.rank]))
  case pop =>
    rcases mTasks with _ | ⟨task, tasks⟩
    · exact absurd rfl (hValid.popping inDrain rfl)
    · exact .onward rfl rfl (Or.inl (by simp [Pc.rank]))
  case invoke =>
    obtain ⟨rfl, hSome⟩ := hValid.calling inDrain popped rfl
    obtain ⟨task, rfl⟩ := Option.isSome_iff_exists.mp hSome
    obtain rfl : inDrain = false := hLoop
    refine .call task ?_ ?_
    · simp [held, current, transit]
    · simp [executed]
  case waitAndPop =>
    obtain rfl : mTasks = [] := hWaiting rfl
    rcases external with _ | ⟨task, external⟩
    · refine .idle rfl ?_ rfl (Or.inl rfl)
      rcases timeout with _ | _
      · rfl
      · rfl
    · exact .fetch 1 Nat.one_pos (List.cons_ne_nil _ _) rfl rfl (Or.inl rfl)
  case push.false =>
    refine .onward ?_ rfl (Or.inl (by simp [Pc.rank]))
    simp [held, current, transit]
  case push.true =>
    refine .onward ?_ rfl (Or.inl (by simp [Pc.rank]))
    simp [held, current, transit]
  case addByLevel =>
    dsimp only
    split
    · split
      · exact .onward rfl rfl (Or.inl (by simp [Pc.rank]))
      · exact .onward rfl rfl (Or.inl (by simp [Pc.rank]))
      · exact .onward rfl rfl (Or.inl (by simp [Pc.rank]))
    · exact .onward rfl rfl (Or.inl (by simp [Pc.rank]))
  case addTasks =>
    dsimp only
    split
    · exact .onward rfl rfl (Or.inl (by simp [Pc.rank]))
    · split
      · exact .onward rfl rfl (Or.inl (by simp [Pc.rank]))
      · exact .onward rfl rfl (Or.inl (by simp [Pc.rank]))
  case popOne =>
    rcases external with _ | ⟨task, external⟩
    · exact .onward rfl rfl (Or.inl (by simp [Pc.rank]))
    · refine .fetch 1 Nat.one_pos (List.cons_ne_nil _ _) ?_ rfl (Or.inr (by simp [Pc.rank]))
      simp [held, current, transit]
  case popN =>
    by_cases hNone : external.take x = []
    · have hDrop : external.drop x = external := by
        have hSplit := List.take_append_drop x external
        rwa [hNone, List.nil_append] at hSplit
      dsimp only
      rw [hNone, hDrop]
      exact .onward rfl rfl (Or.inl (by simp [Pc.rank]))
    · have hx : 0 < x := by
        rcases x with _ | x
        · exact absurd (List.take_zero) hNone
        · exact Nat.succ_pos x
      refine .fetch x hx (fun hNil => hNone (by rw [hNil, List.take_nil])) ?_ rfl
        (Or.inr (by simp [Pc.rank]))
      simp [held, current, transit]
  case pushTemp =>
    rcases temp with _ | ⟨task, temp⟩
    · exact .onward rfl rfl (Or.inl (by simp [Pc.rank]))
    · refine .onward ?_ rfl (Or.inr ⟨rfl, Nat.lt_succ_self _⟩)
      simp [held, current, transit]
  case returned =>
    obtain rfl : mTasks = [] := hOver rfl
    exact .idle rfl rfl rfl (Or.inr (Or.inl rfl))
  case wipe | drain | inactive => exact absurd hLoop id

/-- A worker that neither waits nor has returned. -/
theorem regular_of_pc (hValid : w.Valid) (hRunning : w.mRunning = true) (hGoing : w.mStop = false)
    (hLoop : w.pc.InLoop) (hWaiting : w.pc ≠ .waitAndPop) (hOver : w.pc ≠ .returned) : w.Regular :=
  ⟨hValid, hLoop, fun _ => hRunning, hGoing, fun h => absurd h hWaiting, fun h => absurd h hOver⟩

theorem Regular.step (h : w.Regular) : (w.step loadLevel timeout external).1.Regular := by
  have hValid : (w.step loadLevel timeout external).1.Valid := h.toValid.step timeout external
  have hSelf := h
  obtain ⟨mRunning, mStop, mInactive, mWipe, mMaxLoadSize, mMiddleweight, mLightweight, mTasks,
    linked, pc, p, taskWithFut, invoked, moved⟩ := w
  obtain ⟨hOld, hLoop, hRunning, hGoing, hWaiting, hOver⟩ := h
  dsimp only at hLoop hRunning hGoing hWaiting hOver
  subst hGoing
  unfold Worker.step at hValid ⊢
  rcases pc with _ | _ | _ | _ | _ | inDrain | ⟨inDrain, popped⟩ | _ | ⟨_ | _, task⟩ | _ | n | _ |
    x | temp | _ | _ | _ | _
  case start => exact regular_of_pc hValid rfl rfl trivial (by simp) (by simp)
  case wipe | drain | inactive => exact absurd hLoop id
  case returned => exact hSelf
  all_goals
    obtain rfl : mRunning = true := hRunning (by simp)
  case loop | pause | lock | push.false | push.true | popN =>
    exact regular_of_pc hValid rfl rfl trivial (by simp) (by simp)
  case test =>
    rcases mTasks with _ | ⟨task, tasks⟩
    · rcases p with _ | _
      · exact ⟨hValid, trivial, fun _ => rfl, rfl, by simp, fun _ => rfl⟩
      · exact ⟨hValid, trivial, fun _ => rfl, rfl, fun _ => rfl, by simp⟩
    · exact regular_of_pc hValid rfl rfl rfl (by simp) (by simp)
  case pop =>
    rcases mTasks with _ | ⟨task, tasks⟩
    · exact absurd rfl (hOld.popping inDrain rfl)
    · exact regular_of_pc hValid rfl rfl hLoop (by simp) (by simp)
  case invoke =>
    obtain rfl : inDrain = false := hLoop
    exact regular_of_pc hValid rfl rfl trivial (by simp) (by simp)
  case waitAndPop =>
    rcases external with _ | ⟨task, external⟩
    · rcases timeout with _ | _
      · exact ⟨hValid, trivial, fun _ => rfl, rfl, hWaiting, by simp⟩
      · exact regular_of_pc hValid rfl rfl trivial (by simp) (by simp)
    · exact regular_of_pc hValid rfl rfl trivial (by simp) (by simp)
  case addByLevel =>
    dsimp only
    split
    · split
      all_goals
        exact regular_of_pc (hOld.of_pc rfl (by simp) (by simp)) rfl rfl trivial (by simp) (by simp)
    · exact regular_of_pc (hOld.of_pc rfl (by simp) (by simp)) rfl rfl trivial (by simp) (by simp)
  case addTasks =>
    dsimp only
    split
    · exact regular_of_pc (hOld.of_pc rfl (by simp) (by simp)) rfl rfl trivial (by simp) (by simp)
    · split
      all_goals
        exact regular_of_pc (hOld.of_pc rfl (by simp) (by simp)) rfl rfl trivial (by simp) (by simp)
  case popOne =>
    rcases external with _ | ⟨task, external⟩
    · exact regular_of_pc hValid rfl rfl trivial (by simp) (by simp)
    · exact regular_of_pc hValid rfl rfl trivial (by simp) (by simp)
  case pushTemp =>
    rcases temp with _ | ⟨task, temp⟩
    · exact regular_of_pc hValid rfl rfl trivial (by simp) (by simp)
    · exact regular_of_pc hValid rfl rfl trivial (by simp) (by simp)

theorem Regular.execute (h : w.Regular) {statement : Statement} (hKeeps : statement.Keeps) :
    (w.execute statement).Regular := by
  rcases statement with stop | linked | _ | _ | _ | n | div | div
  case setStop =>
    obtain rfl : stop = false := hKeeps
    exact ⟨⟨h.popping, h.calling, h.called⟩, h.inLoop, h.running, rfl, h.waiting, h.ended⟩
  case halt | setWipe | clear => exact absurd hKeeps id
  all_goals
    exact ⟨⟨h.popping, h.calling, h.called⟩, h.inLoop, h.running, h.going, h.waiting, h.ended⟩

theorem held_execute {statement : Statement} (hKeeps : statement.Keeps) :
    (w.execute statement).held = w.held ∧ (w.execute statement).executed = w.executed ∧
      (w.execute statement).pc = w.pc ∧ (w.execute statement).transit = w.transit := by
  rcases statement with stop | linked | _ | _ | _ | n | div | div
  case clear => exact absurd hKeeps id
  all_goals exact ⟨rfl, rfl, rfl, rfl⟩

/-- How near the worker is to running the task that `ahead` others are ahead of. -/
def nearness (w : Worker) (ahead : Nat) : ℕ ×ₗ ℕ := toLex (20 * ahead + w.pc.rank, w.transit.length)

theorem rank_le (pc : Pc) : pc.rank ≤ 12 := by
  rcases pc with _ | _ | _ | _ | _ | inDrain | ⟨inDrain, popped⟩ | _ | ⟨_ | _, task⟩ | _ | n | _ |
    x | temp | _ | _ | _ | _
  all_goals simp [Pc.rank]

theorem nearness_lt_of_rank {w' : Worker} {ahead : Nat} (h : w'.pc.rank < w.pc.rank ∨
    w'.pc.rank = w.pc.rank ∧ w'.transit.length < w.transit.length) :
    w'.nearness ahead < w.nearness ahead := by
  refine Prod.Lex.toLex_lt_toLex.mpr ?_
  dsimp only
  rcases h with hRank | ⟨hRank, hTransit⟩
  · exact Or.inl (by omega)
  · exact Or.inr ⟨by omega, hTransit⟩

theorem nearness_lt_of_ahead {w' : Worker} {ahead ahead' : Nat} (h : ahead' < ahead) :
    w'.nearness ahead' < w.nearness ahead := by
  have hRank := rank_le w'.pc
  exact Prod.Lex.toLex_lt_toLex.mpr (Or.inl (by dsimp only; omega))

end Worker

-- ---------------------------------------------------------------------------
-- Pools
-- ---------------------------------------------------------------------------

def PoolEvent.party : PoolEvent → Option Nat
  | .work i _ => some i
  | .push | .control => none

namespace Pool

/-- A pool whose workers are left at work. -/
structure Kept (s : Pool) : Prop extends s.Steady where
  keeps : ∀ c ∈ s.controller, c.2.Keeps
  regular : ∀ w ∈ s.workers, w.Regular

/-- A worker that looks for the external queue has been linked to it. -/
def InTime (i : Nat) (s : Pool) (e : PoolEvent) : Prop :=
  ∀ timeout w, e = .work i timeout → s.workers[i]? = some w → w.pc = .lock → w.linked = true

/-- Some worker has run the task. -/
def Ran (task : Task) (s : Pool) : Prop := ∃ w ∈ s.workers, task ∈ w.executed

section

variable {s : Pool} {loadLevel : Nat → Nat → Level} {e : PoolEvent} {task : Task} {i : Nat}

theorem Kept.step (h : s.Kept) (e : PoolEvent) : (s.step loadLevel e).Kept where
  toSteady := h.toSteady.step e
  keeps c hc := h.keeps c ((controller_step e).subset hc)
  regular := by
    refine forall_step (fun _ _ _ _ _ hRegular => hRegular.step) ?_ h.regular
    intro i statement controller w _ hController _ hRegular
    exact hRegular.execute (h.keeps (i, statement) (hController ▸ List.mem_cons_self))

/-- What an event is for a worker: its turn, or nothing of what it has, has run and is at. -/
theorem step_worker (loadLevel : Nat → Nat → Level) (h : s.Kept) (e : PoolEvent) {w : Worker}
    (hw : s.workers[i]? = some w) :
    (∃ timeout, e = .work i timeout ∧
      (s.step loadLevel e).external = (w.step loadLevel timeout s.external).2 ∧
      (s.step loadLevel e).workers[i]? = some (w.step loadLevel timeout s.external).1) ∨
    e.party ≠ some i ∧ ((s.step loadLevel e).workers[i]? = some w ∨
      ∃ statement, statement.Keeps ∧
        (s.step loadLevel e).workers[i]? = some (w.execute statement)) := by
  rcases e with _ | ⟨j, timeout⟩ | _
  · exact Or.inr ⟨by simp [PoolEvent.party], Or.inl hw⟩
  · by_cases hj : j = i
    · subst hj
      refine Or.inl ⟨timeout, rfl, ?_⟩
      rw [Pool.step, hw]
      refine ⟨rfl, ?_⟩
      dsimp only
      rw [List.getElem?_set_self (List.getElem?_eq_some_iff.mp hw).1]
    · refine Or.inr ⟨by simpa [PoolEvent.party] using hj, Or.inl ?_⟩
      rw [Pool.step]
      split
      · exact hw
      · dsimp only
        rw [List.getElem?_set_ne hj, hw]
  · refine Or.inr ⟨by simp [PoolEvent.party], ?_⟩
    rw [Pool.step]
    split
    · exact Or.inl hw
    · rename_i j statement controller hController
      have hKeeps : statement.Keeps := h.keeps (j, statement) (hController ▸ List.mem_cons_self)
      split
      · exact Or.inl hw
      · rename_i w' hw'
        dsimp only
        by_cases hj : j = i
        · subst hj
          obtain rfl : w' = w := Option.some.inj (hw'.symm.trans hw)
          refine Or.inr ⟨statement, hKeeps, ?_⟩
          rw [List.getElem?_set_self (List.getElem?_eq_some_iff.mp hw).1]
        · rw [List.getElem?_set_ne hj]
          exact Or.inl hw

/-- The external queue grows at its end, by tasks that are new, and is taken from its front. -/
theorem step_external (loadLevel : Nat → Nat → Level) (s : Pool) (e : PoolEvent) : ∃ pushed,
    (s.step loadLevel e).external <:+ s.external ++ pushed ∧ ∀ task ∈ pushed, s.pushed ≤ task := by
  rcases e with _ | ⟨j, timeout⟩ | _
  · refine ⟨[s.pushed], List.suffix_rfl, fun task hTask => ?_⟩
    rw [List.mem_singleton.mp hTask]
  · refine ⟨[], ?_, fun task hTask => absurd hTask List.not_mem_nil⟩
    rw [Pool.step, List.append_nil]
    split
    · exact List.suffix_rfl
    · rename_i w _
      exact (Worker.step_move loadLevel timeout w s.external).external_suffix
  · refine ⟨[], ?_, fun task hTask => absurd hTask List.not_mem_nil⟩
    rw [Pool.step, List.append_nil]
    split
    · exact List.suffix_rfl
    · split
      · exact List.suffix_rfl
      · exact List.suffix_rfl

theorem pushed_le_step (s : Pool) (e : PoolEvent) : s.pushed ≤ (s.step loadLevel e).pushed := by
  rcases e with _ | ⟨j, timeout⟩ | _
  · exact Nat.le_succ _
  · rw [Pool.step]
    split
    · exact le_rfl
    · exact le_rfl
  · rw [Pool.step]
    split
    · exact le_rfl
    · split
      · exact le_rfl
      · exact le_rfl

/-- How many tasks of a list are ahead of `task`, in the order of the pushes. -/
def ahead (task : Task) (tasks : List Task) : Nat := tasks.countP (· < task)

theorem ahead_step_le (loadLevel : Nat → Nat → Level) (hTask : task < s.pushed) (e : PoolEvent) :
    ahead task (s.step loadLevel e).external ≤ ahead task s.external := by
  obtain ⟨pushed, hSuffix, hNew⟩ := step_external loadLevel s e
  have hNone : pushed.countP (· < task) = 0 := by
    rw [List.countP_eq_zero]
    intro task' hMem
    rw [decide_eq_true_eq, Nat.not_lt]
    exact (Nat.le_of_lt hTask).trans (hNew task' hMem)
  have hLe : (s.step loadLevel e).external.countP (· < task) ≤
      (s.external ++ pushed).countP (· < task) := hSuffix.sublist.countP_le
  rw [List.countP_append, hNone] at hLe
  exact hLe

/-- Without its first tasks, a queue in order has fewer that are ahead. -/
theorem ahead_drop_lt {tasks : List Task} (hOrder : tasks.Pairwise (· < ·)) {n : Nat} (hn : 0 < n)
    (hMem : task ∈ tasks.drop n) : ahead task (tasks.drop n) < ahead task tasks := by
  rcases tasks with _ | ⟨first, tasks⟩
  · rw [List.drop_nil] at hMem
    exact absurd hMem List.not_mem_nil
  · obtain ⟨n, rfl⟩ := Nat.exists_eq_succ_of_ne_zero hn.ne'
    rw [List.drop_succ_cons] at hMem ⊢
    have hFirst : first < task := (List.pairwise_cons.mp hOrder).1 task (List.mem_of_mem_drop hMem)
    have hLe : ahead task (tasks.drop n) ≤ ahead task tasks :=
      (List.drop_sublist n tasks).countP_le
    rw [ahead, ahead, List.countP_cons_of_pos (by simpa using hFirst)]
    exact Nat.lt_succ_of_le hLe

-- ---------------------------------------------------------------------------
-- From the external queue to a worker
-- ---------------------------------------------------------------------------

/-- A worker that is at work, and looks for the external queue with success. -/
def Attached (i : Nat) (s : Pool) : Prop :=
  ∃ w, s.workers[i]? = some w ∧ w.pc ≠ .returned ∧ (w.pc = .test → w.p = true)

/-- How far the task is from the front of the queue, and the worker from its next fetch. -/
def fetchRank (task : Task) (i : Nat) (s : Pool) : ℕ ×ₗ ℕ ×ₗ ℕ :=
  match s.workers[i]? with
  | some w => toLex (ahead task s.external, w.nearness w.held.length)
  | none => toLex (0, toLex (0, 0))

theorem attached_turn {w : Worker} {timeout : Bool} {external : List Task} (h : w.Regular)
    (hReturned : w.pc ≠ .returned) (hTest : w.pc = .test → w.p = true)
    (hLock : w.pc = .lock → w.linked = true) :
    (w.step loadLevel timeout external).1.pc ≠ .returned ∧
      ((w.step loadLevel timeout external).1.pc = .test →
        (w.step loadLevel timeout external).1.p = true) := by
  have hLoop := h.inLoop
  unfold Worker.step
  rcases hPc : w.pc with _ | _ | _ | _ | _ | inDrain | ⟨inDrain, popped⟩ | _ | ⟨_ | _, t⟩ | _ | n |
    _ | x | temp | _ | _ | _ | _
  case lock => exact ⟨by simp, fun _ => hLock hPc⟩
  case test =>
    rw [hTest hPc]
    dsimp only
    split
    · exact ⟨by simp, by simp⟩
    · exact ⟨by simp, by simp⟩
  case start | push.false | push.true | popN => exact ⟨by simp, by simp⟩
  case inactive =>
    rw [hPc] at hLoop
    exact absurd hLoop id
  case returned => exact absurd hPc hReturned
  case pop =>
    rcases w.mTasks with _ | ⟨t, tasks⟩
    · exact ⟨by simp, by simp⟩
    · exact ⟨by simp, by simp⟩
  case waitAndPop =>
    rcases external with _ | ⟨t, external⟩
    · rcases timeout with _ | _
      · exact ⟨by simp, by simp⟩
      · exact ⟨by simp, by simp⟩
    · exact ⟨by simp, by simp⟩
  case popOne =>
    rcases external with _ | ⟨t, external⟩
    · exact ⟨by simp, by simp⟩
    · exact ⟨by simp, by simp⟩
  case pushTemp =>
    rcases temp with _ | ⟨t, temp⟩
    · exact ⟨by simp, by simp⟩
    · exact ⟨by simp, by simp⟩
  case addByLevel =>
    dsimp only
    split
    · split
      all_goals exact ⟨by simp, by simp⟩
    · exact ⟨by simp, by simp⟩
  case addTasks =>
    dsimp only
    split
    · exact ⟨by simp, by simp⟩
    · split
      all_goals exact ⟨by simp, by simp⟩
  case loop | pause | invoke | wipe | drain =>
    dsimp only
    split
    all_goals exact ⟨by simp, by simp⟩

/-- What another event leaves as it is. -/
theorem other_same {w : Worker} (h : (s.step loadLevel e).workers[i]? = some w ∨
      ∃ statement, statement.Keeps ∧
        (s.step loadLevel e).workers[i]? = some (w.execute statement)) :
    ∃ w', (s.step loadLevel e).workers[i]? = some w' ∧ w'.held = w.held ∧ w'.pc = w.pc ∧
      w'.transit = w.transit ∧ w'.p = w.p := by
  rcases h with hSame | ⟨statement, hKeeps, hSame⟩
  · exact ⟨w, hSame, rfl, rfl, rfl, rfl⟩
  · obtain ⟨hHeld, -, hPc, hTransit⟩ := Worker.held_execute (w := w) hKeeps
    refine ⟨_, hSame, hHeld, hPc, hTransit, ?_⟩
    rcases statement with _ | _ | _ | _ | _ | _ | _ | _
    all_goals rfl

theorem attached_step (h : s.Kept) (hAttached : s.Attached i) (hInTime : s.InTime i e) :
    (s.step loadLevel e).Attached i := by
  obtain ⟨w, hw, hReturned, hTest⟩ := hAttached
  rcases step_worker loadLevel h e hw with ⟨timeout, rfl, -, hw'⟩ | ⟨-, hOther⟩
  · exact ⟨_, hw', attached_turn (h.regular w (List.mem_of_getElem? hw)) hReturned hTest
      (hInTime timeout w rfl hw)⟩
  · obtain ⟨w', hw', -, hPc, -, hP⟩ := other_same hOther
    exact ⟨w', hw', hPc ▸ hReturned, hPc ▸ hP ▸ hTest⟩

/-- A worker at work fetches what is at the front of the queue. -/
theorem advances_fetch (h : s.Kept) (hAttached : s.Attached i) (hTask : task < s.pushed)
    (hInTime : s.InTime i e) (hMem : task ∈ s.external) :
    Advances PoolEvent.party (fun s : Pool => s.Kept ∧ s.Attached i ∧ task < s.pushed)
      (fun s => task ∉ s.external) (fetchRank task i) (fun _ => i) s e (s.step loadLevel e) := by
  have hNext : (s.step loadLevel e).Kept ∧ (s.step loadLevel e).Attached i ∧
      task < (s.step loadLevel e).pushed :=
    ⟨h.step e, attached_step h hAttached hInTime, hTask.trans_le (pushed_le_step s e)⟩
  obtain ⟨w, hw, hReturned, hTest⟩ := hAttached
  have hWorker : w ∈ s.workers := List.mem_of_getElem? hw
  have hOld : fetchRank task i s = toLex (ahead task s.external, w.nearness w.held.length) := by
    rw [fetchRank, hw]
  by_cases hGoal : task ∉ (s.step loadLevel e).external
  · exact Or.inl hGoal
  rw [not_not] at hGoal
  refine Or.inr ⟨hNext, ?_⟩
  rcases step_worker loadLevel h e hw with ⟨timeout, rfl, hExternal, hw'⟩ |
    ⟨hParty, hOther⟩
  · left
    have hOutcome := (h.regular w hWorker).outcome loadLevel timeout s.external
    rw [hExternal] at hGoal
    rw [hOld, fetchRank, hw', hExternal, Prod.Lex.toLex_lt_toLex]
    dsimp only
    generalize (w.step loadLevel timeout s.external).1 = w' at hOutcome ⊢
    generalize (w.step loadLevel timeout s.external).2 = external' at hOutcome hGoal ⊢
    rcases hOutcome with ⟨hHeld, -, hRank⟩ | ⟨n, hn, -, -, -, -⟩ | ⟨first, hHeld, -⟩ |
      ⟨-, -, -, hNone | hOver | ⟨hAt, hNull⟩⟩
    · rw [hHeld]
      exact Or.inr ⟨rfl, Worker.nearness_lt_of_rank hRank⟩
    · have hOrder := (List.pairwise_append.mp (h.inv.order w hWorker)).2.1
      exact Or.inl (ahead_drop_lt hOrder hn hGoal)
    · refine Or.inr ⟨rfl, Worker.nearness_lt_of_ahead ?_⟩
      rw [hHeld]
      exact Nat.lt_succ_self _
    · rw [hNone] at hMem
      exact absurd hMem List.not_mem_nil
    · exact absurd hOver hReturned
    · rw [hTest hAt] at hNull
      cases hNull
  · obtain ⟨w', hw', hHeld, hPc, hTransit, -⟩ := other_same hOther
    have hNear : w'.nearness w'.held.length = w.nearness w.held.length := by
      rw [Worker.nearness, Worker.nearness, hHeld, hPc, hTransit]
    rw [hOld, fetchRank, hw']
    dsimp only
    rw [hNear]
    rcases Nat.lt_or_eq_of_le (ahead_step_le loadLevel hTask e) with hLess | hEq
    · exact Or.inl (Prod.Lex.toLex_lt_toLex.mpr (Or.inl hLess))
    · rw [hEq]
      exact Or.inr ⟨rfl, rfl, hParty⟩

-- ---------------------------------------------------------------------------
-- From a worker to its end
-- ---------------------------------------------------------------------------

/-- How far the worker is from running the task. -/
def runRank (task : Task) (i : Nat) (s : Pool) : ℕ ×ₗ ℕ :=
  match s.workers[i]? with
  | some w => w.nearness (ahead task w.held)
  | none => toLex (0, 0)

/-- The worker has the task. -/
def HeldBy (task : Task) (i : Nat) (s : Pool) : Prop :=
  ∃ w, s.workers[i]? = some w ∧ task ∈ w.held

theorem kept_eq (w : Worker) : w.kept = w.ran ++ w.held := by
  rw [Worker.kept, Worker.held, List.append_assoc, List.append_assoc, List.append_assoc]

theorem held_sub_kept {w : Worker} (h : task ∈ w.held) : task ∈ w.kept := by
  rw [kept_eq]
  exact List.mem_append_right _ h

theorem held_order (h : s.Kept) {w : Worker} (hw : w ∈ s.workers) : w.held.Pairwise (· < ·) := by
  have hOrder := (List.pairwise_append.mp (h.inv.order w hw)).1
  rw [kept_eq] at hOrder
  exact (List.pairwise_append.mp hOrder).2.1

/-- A worker runs what it has, in order. -/
theorem advances_run (h : s.Kept) (hHeldBy : s.HeldBy task i) (hTask : task < s.pushed) :
    Advances PoolEvent.party (fun s : Pool => s.Kept ∧ s.HeldBy task i ∧ task < s.pushed)
      (Ran task) (runRank task i) (fun _ => i) s e (s.step loadLevel e) := by
  obtain ⟨w, hw, hMem⟩ := hHeldBy
  have hWorker : w ∈ s.workers := List.mem_of_getElem? hw
  have hKept : (s.step loadLevel e).Kept := h.step e
  have hPushed : task < (s.step loadLevel e).pushed := hTask.trans_le (pushed_le_step s e)
  have hOld : runRank task i s = w.nearness (ahead task w.held) := by
    rw [runRank, hw]
  rcases step_worker loadLevel h e hw with ⟨timeout, rfl, -, hw'⟩ |
    ⟨hParty, hOther⟩
  · have hOutcome := (h.regular w hWorker).outcome loadLevel timeout s.external
    have hNew : runRank task i (s.step loadLevel (.work i timeout)) =
        (w.step loadLevel timeout s.external).1.nearness
          (ahead task (w.step loadLevel timeout s.external).1.held) := by
      rw [runRank, hw']
    rw [Advances, hOld, hNew]
    generalize (w.step loadLevel timeout s.external).1 = w' at hOutcome hw' ⊢
    generalize (w.step loadLevel timeout s.external).2 = external' at hOutcome
    rcases hOutcome with ⟨hHeld, -, hRank⟩ | ⟨n, -, -, hHeld, -, hRank⟩ |
      ⟨first, hHeld, hExecuted⟩ | ⟨hHeld, -, -, -⟩
    · refine Or.inr ⟨⟨hKept, ⟨w', hw', hHeld ▸ hMem⟩, hPushed⟩, Or.inl ?_⟩
      rw [hHeld]
      exact Worker.nearness_lt_of_rank hRank
    · -- what is fetched is behind it
      have hBehind : ahead task (s.external.take n) = 0 := by
        rw [ahead, List.countP_eq_zero]
        intro task' hTask'
        have hLess := (List.pairwise_append.mp (h.inv.order w hWorker)).2.2 task
          (held_sub_kept hMem) task' (List.mem_of_mem_take hTask')
        rw [decide_eq_true_eq, Nat.not_lt]
        exact hLess.le
      have hAhead : ahead task w'.held = ahead task w.held := by
        rw [hHeld, ahead, List.countP_append]
        exact congrArg _ hBehind
      refine Or.inr ⟨⟨hKept, ⟨w', hw', hHeld ▸ List.mem_append_left _ hMem⟩, hPushed⟩, Or.inl ?_⟩
      rw [hAhead]
      rcases hRank with hNone | hRank
      · rw [hNone] at hMem
        exact absurd hMem List.not_mem_nil
      · exact Worker.nearness_lt_of_rank (Or.inl hRank)
    · have hOrder := held_order h hWorker
      rw [hHeld] at hMem hOrder
      rcases List.mem_cons.mp hMem with rfl | hLater
      · refine Or.inl ⟨w', List.mem_of_getElem? hw', ?_⟩
        rw [hExecuted]
        exact List.mem_append_right _ List.mem_cons_self
      · refine Or.inr ⟨⟨hKept, ⟨w', hw', hLater⟩, hPushed⟩, Or.inl ?_⟩
        have hFirst : first < task := (List.pairwise_cons.mp hOrder).1 task hLater
        refine Worker.nearness_lt_of_ahead ?_
        rw [hHeld, ahead, ahead, List.countP_cons_of_pos (by simpa using hFirst)]
        exact Nat.lt_succ_self _
    · rw [hHeld] at hMem
      exact absurd hMem List.not_mem_nil
  · obtain ⟨w', hw', hHeld, hPc, hTransit, -⟩ := other_same hOther
    refine Or.inr ⟨⟨hKept, ⟨w', hw', hHeld ▸ hMem⟩, hPushed⟩, Or.inr ⟨?_, rfl, hParty⟩⟩
    rw [hOld, runRank, hw']
    dsimp only
    rw [Worker.nearness, Worker.nearness, hHeld, hPc, hTransit]

end

-- ---------------------------------------------------------------------------
-- Workers that have come too early
-- ---------------------------------------------------------------------------

/-- A worker without a link has not got past its first look for the queue. -/
structure Fresh (w : Worker) : Prop where
  tasks : w.mTasks = []
  invoked : w.invoked = []
  early : w.pc = .start ∨ w.pc = .loop ∨ w.pc = .pause ∨ w.pc = .lock ∨
    w.pc = .test ∧ w.p = false ∨ w.pc = .returned

/-- A worker that has found no queue. -/
structure Doomed (w : Worker) : Prop where
  tasks : w.mTasks = []
  invoked : w.invoked = []
  ended : w.pc = .test ∧ w.p = false ∨ w.pc = .returned

section

variable {s : Pool} {loadLevel : Nat → Nat → Level} {e : PoolEvent} {task : Task} {i : Nat}
  {w : Worker} {timeout : Bool} {external : List Task}

theorem Doomed.turn (h : Doomed w) : Doomed (w.step loadLevel timeout external).1 := by
  obtain ⟨mRunning, mStop, mInactive, mWipe, mMaxLoadSize, mMiddleweight, mLightweight, mTasks,
    linked, pc, p, taskWithFut, invoked, moved⟩ := w
  obtain ⟨rfl, rfl, ⟨rfl, rfl⟩ | rfl⟩ := h
  · exact ⟨rfl, rfl, Or.inr rfl⟩
  · exact ⟨rfl, rfl, Or.inr rfl⟩

theorem Fresh.turn (h : Fresh w) (hRegular : w.Regular) (hLinked : w.linked = false) :
    Fresh (w.step loadLevel timeout external).1 := by
  obtain ⟨mRunning, mStop, mInactive, mWipe, mMaxLoadSize, mMiddleweight, mLightweight, mTasks,
    linked, pc, p, taskWithFut, invoked, moved⟩ := w
  obtain ⟨hTasks, hInvoked, hEarly⟩ := h
  have hRunning := hRegular.running
  have hGoing := hRegular.going
  dsimp only at hTasks hInvoked hEarly hRunning hGoing hLinked
  subst hTasks hInvoked hGoing hLinked
  rcases hEarly with rfl | rfl | rfl | rfl | ⟨rfl, rfl⟩ | rfl
  · exact ⟨rfl, rfl, Or.inr (Or.inl rfl)⟩
  · obtain rfl : mRunning = true := hRunning (by simp)
    exact ⟨rfl, rfl, Or.inr (Or.inr (Or.inl rfl))⟩
  · exact ⟨rfl, rfl, Or.inr (Or.inr (Or.inr (Or.inl rfl)))⟩
  · exact ⟨rfl, rfl, Or.inr (Or.inr (Or.inr (Or.inr (Or.inl ⟨rfl, rfl⟩))))⟩
  · exact ⟨rfl, rfl, Or.inr (Or.inr (Or.inr (Or.inr (Or.inr rfl))))⟩
  · exact ⟨rfl, rfl, Or.inr (Or.inr (Or.inr (Or.inr (Or.inr rfl))))⟩

theorem Fresh.execute (h : Fresh w) {statement : Statement} (hKeeps : statement.Keeps) :
    Fresh (w.execute statement) := by
  rcases statement with _ | _ | _ | _ | _ | _ | _ | _
  case clear => exact absurd hKeeps id
  all_goals exact ⟨h.tasks, h.invoked, h.early⟩

theorem Doomed.execute (h : Doomed w) {statement : Statement} (hKeeps : statement.Keeps) :
    Doomed (w.execute statement) := by
  rcases statement with _ | _ | _ | _ | _ | _ | _ | _
  case clear => exact absurd hKeeps id
  all_goals exact ⟨h.tasks, h.invoked, h.ended⟩

/-- A link stays. -/
theorem linked_execute {statement : Statement} (hKeeps : statement.Keeps)
    (h : (w.execute statement).linked = false) : w.linked = false := by
  rcases statement with _ | linked | _ | _ | _ | _ | _ | _
  case link =>
    obtain rfl : linked = true := hKeeps
    cases h
  all_goals exact h

theorem linked_turn (w : Worker) (timeout : Bool) (external : List Task) :
    (w.step loadLevel timeout external).1.linked = w.linked := by
  unfold Worker.step
  rcases w.pc with _ | _ | _ | _ | _ | inDrain | ⟨inDrain, popped⟩ | _ | ⟨wait, t⟩ | _ | m | _ |
    x | temp | _ | _ | _ | _
  case pop =>
    rcases w.mTasks with _ | ⟨t, tasks⟩
    · rfl
    · rfl
  case waitAndPop | popOne =>
    rcases external with _ | ⟨t, external⟩
    · rfl
    · rfl
  case pushTemp =>
    rcases temp with _ | ⟨t, temp⟩
    · rfl
    · rfl
  case addByLevel =>
    dsimp only
    split
    · split
      all_goals rfl
    · rfl
  all_goals rfl

/-- Where a worker is that has no link. -/
def AllFresh (s : Pool) : Prop := s.Kept ∧ ∀ w ∈ s.workers, w.linked = false → Fresh w

theorem allFresh_step (h : s.AllFresh) (e : PoolEvent) : (s.step loadLevel e).AllFresh := by
  refine ⟨h.1.step e, fun w hw hLinked => ?_⟩
  have hStep : ∀ w ∈ (s.step loadLevel e).workers,
      w.Regular ∧ (w.linked = false → Fresh w) := forall_step
    (fun _ timeout w _ _ hw => ⟨hw.1.step, fun hLinked => ?_⟩)
    (fun j statement controller w _ hController _ hw => ?_)
    (fun w hw => ⟨h.1.regular w hw, h.2 w hw⟩)
  · exact (hStep w hw).2 hLinked
  · rw [linked_turn] at hLinked
    exact (hw.2 hLinked).turn hw.1 hLinked
  · have hKeeps : statement.Keeps := h.1.keeps (j, statement) (hController ▸ List.mem_cons_self)
    refine ⟨hw.1.execute hKeeps, fun hLinked => ?_⟩
    exact (hw.2 (linked_execute hKeeps hLinked)).execute hKeeps

/-- Worker `i` has found no queue. -/
def DoomedAt (i : Nat) (s : Pool) : Prop := s.Kept ∧ ∃ w, s.workers[i]? = some w ∧ Doomed w

theorem doomedAt_step (h : s.DoomedAt i) (e : PoolEvent) : (s.step loadLevel e).DoomedAt i := by
  obtain ⟨hKept, w, hw, hDoomed⟩ := h
  refine ⟨hKept.step e, ?_⟩
  rcases step_worker loadLevel hKept e hw with ⟨timeout, -, -, hw'⟩ |
    ⟨-, hw' | ⟨statement, hKeeps, hw'⟩⟩
  · exact ⟨_, hw', hDoomed.turn⟩
  · exact ⟨w, hw', hDoomed⟩
  · exact ⟨_, hw', hDoomed.execute hKeeps⟩

/-- A worker that looks for the queue too early never finds it. -/
theorem doomedAt_of_not_inTime (h : s.AllFresh) (hNot : ¬ s.InTime i e) :
    (s.step loadLevel e).DoomedAt i := by
  simp only [InTime, Classical.not_imp, not_forall] at hNot
  obtain ⟨timeout, w, rfl, hw, hLock, hLinked⟩ := hNot
  have hFresh := h.2 w (List.mem_of_getElem? hw) (by simpa using hLinked)
  refine ⟨h.1.step _, (w.step loadLevel timeout s.external).1, ?_, ?_⟩
  · rw [Pool.step, hw]
    dsimp only
    rw [List.getElem?_set_self (List.getElem?_eq_some_iff.mp hw).1]
  · unfold Worker.step
    rw [hLock]
    exact ⟨hFresh.tasks, hFresh.invoked, Or.inl ⟨rfl, by simpa using hLinked⟩⟩

/-- Worker `i` has run the task. -/
def RanAt (task : Task) (i : Nat) (s : Pool) : Prop :=
  s.Kept ∧ ∃ w, s.workers[i]? = some w ∧ task ∈ w.executed

theorem ranAt_step (h : s.RanAt task i) (e : PoolEvent) : (s.step loadLevel e).RanAt task i := by
  obtain ⟨hKept, w, hw, hMem⟩ := h
  have hRegular := hKept.regular w (List.mem_of_getElem? hw)
  refine ⟨hKept.step e, ?_⟩
  rcases step_worker loadLevel hKept e hw with ⟨timeout, -, -, hw'⟩ |
    ⟨-, hw' | ⟨statement, hKeeps, hw'⟩⟩
  · refine ⟨_, hw', ?_⟩
    have hOutcome := hRegular.outcome loadLevel timeout s.external
    generalize (w.step loadLevel timeout s.external).1 = w' at hOutcome ⊢
    generalize (w.step loadLevel timeout s.external).2 = external' at hOutcome
    rcases hOutcome with ⟨-, hExecuted, -⟩ | ⟨-, -, -, -, hExecuted, -⟩ | ⟨_, -, hExecuted⟩ |
      ⟨-, -, hExecuted, -⟩
    · rw [hExecuted]
      exact hMem
    · rw [hExecuted]
      exact hMem
    · rw [hExecuted]
      exact List.mem_append_left _ hMem
    · rw [hExecuted]
      exact hMem
  · exact ⟨w, hw', hMem⟩
  · refine ⟨_, hw', ?_⟩
    rw [(Worker.held_execute hKeeps).2.1]
    exact hMem

end

-- ---------------------------------------------------------------------------
-- Every schedule
-- ---------------------------------------------------------------------------

section

variable {s : Pool} {loadLevel : Nat → Nat → Level} {task : Task} {n : Nat}
  {commands : List (Nat × Command)} {es : Nat → PoolEvent}

theorem new_kept (h : ∀ c ∈ commands, c.2.Keeps) : (new n commands).Kept where
  toSteady := by
    refine steady_new ?_
    intro c hc hCancel
    have hHalt := h c hc .halt (by simp [hCancel, Command.statements])
    exact hHalt
  keeps c hc := by
    obtain ⟨⟨i, command⟩, hCommand, hStatement⟩ := List.mem_flatMap.mp hc
    obtain ⟨statement, hMem, rfl⟩ := List.mem_map.mp hStatement
    exact h _ hCommand statement hMem
  regular w hw := by
    rw [List.eq_of_mem_replicate hw]
    exact Worker.regular_new

theorem new_allFresh (h : ∀ c ∈ commands, c.2.Keeps) : (new n commands).AllFresh := by
  refine ⟨new_kept h, fun w hw _ => ?_⟩
  rw [List.eq_of_mem_replicate hw]
  exact ⟨rfl, rfl, Or.inl rfl⟩

/-- Outside the external queue a task is with a worker. -/
theorem placed (h : s.Kept) (hTask : task < s.pushed) (hNot : task ∉ s.external) :
    s.Ran task ∨ ∃ i, s.HeldBy task i := by
  have hPlace : task ∈ s.external ++ s.workers.flatMap Worker.kept ++ s.dropped :=
    h.inv.places.mem_iff.mpr (List.mem_range.mpr hTask)
  rw [h.dropped, List.append_nil, List.mem_append] at hPlace
  obtain ⟨w, hw, hKept⟩ := List.mem_flatMap.mp (hPlace.resolve_left hNot)
  rw [kept_eq] at hKept
  rcases List.mem_append.mp hKept with hRan | hHeld
  · refine Or.inl ⟨w, hw, ?_⟩
    rw [(h.valid w hw).executed_eq]
    exact hRan
  · obtain ⟨i, hi⟩ := List.mem_iff_getElem?.mp hw
    exact Or.inr ⟨i, w, hi, hHeld⟩

theorem length_step (s : Pool) (e : PoolEvent) :
    (s.step loadLevel e).workers.length = s.workers.length := by
  rcases e with _ | ⟨j, timeout⟩ | _
  · rfl
  · rw [Pool.step]
    split
    · rfl
    · exact List.length_set
  · rw [Pool.step]
    split
    · rfl
    · split
      · rfl
      · exact List.length_set

theorem length_nth (k : Nat) :
    (nth (step loadLevel) (new n commands) es k).workers.length = n :=
  nth_of_step (fun s : Pool => s.workers.length = n) (fun s e h => (length_step s e).trans h)
    (k := 0) List.length_replicate (Nat.zero_le k)

theorem lt_of_getElem? {k i : Nat} {w : Worker}
    (h : (nth (step loadLevel) (new n commands) es k).workers[i]? = some w) : i < n :=
  (List.getElem?_eq_some_iff.mp h).1.trans_eq (length_nth k)

variable (h : ∀ c ∈ commands, c.2.Keeps)
include h

theorem nth_allFresh (k : Nat) : (nth (step loadLevel) (new n commands) es k).AllFresh :=
  nth_of_step AllFresh (fun _ e hs => allFresh_step hs e) (k := 0) (new_allFresh h) (Nat.zero_le k)

/-- A task that a worker has is run. -/
theorem run_of_held (hFair : Fair PoolEvent.party {i | i < n} es) {k i : Nat}
    (hTask : task < (nth (step loadLevel) (new n commands) es k).pushed)
    (hHeld : (nth (step loadLevel) (new n commands) es k).HeldBy task i) :
    ∃ m, k ≤ m ∧ (nth (step loadLevel) (new n commands) es m).Ran task := by
  obtain ⟨w, hw, -⟩ := id hHeld
  refine eventually_of_rank (C := fun _ _ => True)
    (fun s : Pool => s.Kept ∧ s.HeldBy task i ∧ task < s.pushed) (Ran task) (runRank task i)
    (fun _ => i) (fun s e hs _ _ => advances_run hs.1 hs.2.1 hs.2.2) (fun _ _ _ => ?_)
    (fun _ => trivial) hFair ⟨(nth_allFresh h k).1, hHeld, hTask⟩
  exact lt_of_getElem? hw

theorem nth_attached {i : Nat} (hi : i < n)
    (hInTime : ∀ k, (nth (step loadLevel) (new n commands) es k).InTime i (es k)) (k : Nat) :
    (nth (step loadLevel) (new n commands) es k).Attached i := by
  induction k with
  | zero =>
    refine ⟨.new, ?_, by simp [Worker.new], by simp [Worker.new]⟩
    exact List.getElem?_replicate_of_lt hi
  | succ k ih => exact attached_step (nth_allFresh h k).1 ih (hInTime k)

/-- **Fetched.** A worker that has been linked in time sees to it that a task leaves the queue. -/
theorem fetched (hFair : Fair PoolEvent.party {i | i < n} es) {i : Nat} (hi : i < n)
    (hInTime : ∀ k, (nth (step loadLevel) (new n commands) es k).InTime i (es k)) {k : Nat}
    (hTask : task < (nth (step loadLevel) (new n commands) es k).pushed) :
    ∃ m, k ≤ m ∧ task ∉ (nth (step loadLevel) (new n commands) es m).external := by
  refine eventually_of_rank (C := fun s e => s.InTime i e)
    (fun s : Pool => s.Kept ∧ s.Attached i ∧ task < s.pushed) (fun s => task ∉ s.external)
    (fetchRank task i) (fun _ => i) (fun s e hs hC hNot => ?_) (fun _ _ _ => hi) hInTime hFair
    ⟨(nth_allFresh h k).1, nth_attached h hi hInTime k, hTask⟩
  exact advances_fetch hs.1 hs.2.1 hs.2.2 hC (not_not.mp hNot)

/-- Who has found no queue runs nothing. -/
theorem inTime_of_ranAt {i m : Nat}
    (hRan : (nth (step loadLevel) (new n commands) es m).RanAt task i) (k : Nat) :
    (nth (step loadLevel) (new n commands) es k).InTime i (es k) := by
  by_contra hNot
  have hDoomed : (nth (step loadLevel) (new n commands) es (k + 1)).DoomedAt i :=
    doomedAt_of_not_inTime (nth_allFresh h k) hNot
  -- later than both
  obtain ⟨-, w, hw, hWorker⟩ :=
    nth_of_step (DoomedAt i) (fun _ e hs => doomedAt_step hs e) (k := k + 1) hDoomed
      (le_max_left _ m)
  obtain ⟨-, w', hw', hMem⟩ :=
    nth_of_step (RanAt task i) (fun _ e hs => ranAt_step hs e) hRan (le_max_right (k + 1) _)
  obtain rfl : w = w' := Option.some.inj (hw.symm.trans hw')
  rw [Worker.executed, hWorker.invoked] at hMem
  exact absurd hMem List.not_mem_nil

/-- **Every task is run.** If all workers come to their turns again and again, then the tasks
that are pushed are all run, if and only if some worker has been linked to the external queue
when it looks for it, or nothing is ever pushed. -/
theorem tasks_run_iff (hFair : Fair PoolEvent.party {i | i < n} es) :
    (∀ k, ∀ task < (nth (step loadLevel) (new n commands) es k).pushed,
        ∃ m, (nth (step loadLevel) (new n commands) es m).Ran task) ↔
      (∀ k, (nth (step loadLevel) (new n commands) es k).pushed = 0) ∨
        ∃ i < n, ∀ k, (nth (step loadLevel) (new n commands) es k).InTime i (es k) := by
  constructor
  · intro hRun
    by_cases hNone : ∀ k, (nth (step loadLevel) (new n commands) es k).pushed = 0
    · exact Or.inl hNone
    right
    obtain ⟨k, hk⟩ := not_forall.mp hNone
    obtain ⟨m, w, hw, hMem⟩ := hRun k 0 (Nat.pos_of_ne_zero hk)
    obtain ⟨i, hi⟩ := List.mem_iff_getElem?.mp hw
    exact ⟨i, lt_of_getElem? hi, inTime_of_ranAt h ⟨(nth_allFresh h m).1, w, hi, hMem⟩⟩
  · rintro (hNone | ⟨i, hi, hInTime⟩) k task hTask
    · rw [hNone k] at hTask
      exact absurd hTask (Nat.not_lt_zero task)
    · obtain ⟨m, hm, hOut⟩ := fetched h hFair hi hInTime hTask
      have hPushed : task < (nth (step loadLevel) (new n commands) es m).pushed :=
        nth_of_step (fun s : Pool => task < s.pushed)
          (fun s e hs => hs.trans_le (pushed_le_step s e)) hTask hm
      rcases placed (nth_allFresh h m).1 hPushed hOut with hRan | ⟨j, hHeld⟩
      · exact ⟨m, hRan⟩
      · obtain ⟨m', -, hRan⟩ := run_of_held h hFair hPushed hHeld
        exact ⟨m', hRan⟩

end

/-- Worker `i` is linked. -/
def LinkedAt (i : Nat) (s : Pool) : Prop :=
  s.Kept ∧ ∃ w, s.workers[i]? = some w ∧ w.linked = true

theorem linkedAt_step {s : Pool} {loadLevel : Nat → Nat → Level} {i : Nat} (h : s.LinkedAt i)
    (e : PoolEvent) : (s.step loadLevel e).LinkedAt i := by
  obtain ⟨hKept, w, hw, hLinked⟩ := h
  refine ⟨hKept.step e, ?_⟩
  rcases step_worker loadLevel hKept e hw with ⟨timeout, -, -, hw'⟩ |
    ⟨-, hw' | ⟨statement, hKeeps, hw'⟩⟩
  · exact ⟨_, hw', (linked_turn w timeout s.external).trans hLinked⟩
  · exact ⟨w, hw', hLinked⟩
  · refine ⟨_, hw', ?_⟩
    by_contra hNot
    rw [linked_execute hKeeps (by simpa using hNot)] at hLinked
    cases hLinked

/-- One of two workers is linked at once; then tasks are pushed, and both take turns. -/
def oneLinked (k : Nat) : PoolEvent :=
  if k = 0 then .control else if k % 3 = 0 then .push else .work (k % 3 - 1) false

theorem tasks_run_iff_oneLinked :
    (nth (step exactLevel) (new 2 [(0, .linkExternalTasks)]) oneLinked 10).pushed = 3 ∧
      ∀ k, ∀ task < (nth (step exactLevel) (new 2 [(0, .linkExternalTasks)]) oneLinked k).pushed,
        ∃ m, (nth (step exactLevel) (new 2 [(0, .linkExternalTasks)]) oneLinked m).Ran task := by
  have hKeeps : ∀ c ∈ [(0, Command.linkExternalTasks)], c.2.Keeps := by decide
  have hFair : Fair PoolEvent.party {i | i < 2} oneLinked := by
    intro i hi k
    have hLess : i < 2 := hi
    refine ⟨3 * k + 1 + i, by omega, ?_⟩
    have hMod : (3 * k + 1 + i) % 3 - 1 = i := by omega
    rw [oneLinked, if_neg (by omega), if_neg (by omega), hMod]
    rfl
  refine ⟨by decide, (tasks_run_iff hKeeps hFair).mpr (Or.inr ⟨0, by decide, fun k => ?_⟩)⟩
  rcases k with _ | k
  · intro timeout w hTurn
    cases hTurn
  · have hOne : (nth (step exactLevel) (new 2 [(0, .linkExternalTasks)]) oneLinked 1).LinkedAt 0 :=
      ⟨(nth_allFresh hKeeps 1).1, Worker.new.execute (.link true), rfl, rfl⟩
    -- and it stays linked
    obtain ⟨-, w', hw', hLinked⟩ := nth_of_step (LinkedAt 0) (fun _ e hs => linkedAt_step hs e)
      hOne (Nat.succ_le_succ (Nat.zero_le k))
    intro timeout w _ hw _
    obtain rfl : w' = w := Option.some.inj (hw'.symm.trans hw)
    exact hLinked

end Pool

end WarringServer.Thread
