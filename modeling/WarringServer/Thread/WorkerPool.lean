import Mathlib.Data.List.Flatten
import Mathlib.Data.List.Nodup
import Mathlib.Data.List.Perm.Basic
import WarringServer.Lib.Run
import WarringServer.Thread.Worker

/-!
# Any number of workers on one queue

A pool is an external queue, the workers linked to it, and a controller that goes through
its commands. Producers push, workers take steps, the controller executes statements, in
any order. Tasks are numbered as they are pushed.

* `Pool.Inv` — every task pushed is in exactly one place, those of a `clear` included, and
  the line that ends in a worker is in order. It holds in every run, whatever the commands;
* `Worker.Valid` — the calls of a worker follow pops that have returned a task. It holds as
  long as nothing is cleared between the test of the local queue and the pop;
* `pool_conserves` — both, in a pool without `CANCEL`.
-/

namespace WarringServer.Thread

open Run

structure Pool where
  external : List Task
  /-- How many tasks have been pushed. -/
  pushed : Nat
  workers : List Worker
  /-- The statements to come, each with its worker. -/
  controller : List (Nat × Statement)
  /-- Tasks of local queues that were cleared. -/
  dropped : List Task
  deriving DecidableEq, Repr

inductive PoolEvent where
  /-- A producer pushes the next task. -/
  | push
  /-- The next statement of worker `i`; a wait of it ends if it times out. -/
  | work (i : Nat) (timeout : Bool)
  /-- The next statement of the controller. -/
  | control
  deriving DecidableEq, Repr

namespace Pool

/-- `n` threads, and the commands the controller is going to give them. -/
def new (n : Nat) (commands : List (Nat × Command)) : Pool where
  external := []
  pushed := 0
  workers := List.replicate n .new
  controller := commands.flatMap fun c => c.2.statements.map fun statement => (c.1, statement)
  dropped := []

def step (loadLevel : Nat → Nat → Level) (s : Pool) : PoolEvent → Pool
  | .push => { s with external := s.external ++ [s.pushed], pushed := s.pushed + 1 }
  | .work i timeout =>
    match s.workers[i]? with
    | none => s
    | some w =>
      let (w, external) := w.step loadLevel timeout s.external
      { s with external := external, workers := s.workers.set i w }
  | .control =>
    match s.controller with
    | [] => s
    | (i, statement) :: controller =>
      match s.workers[i]? with
      | none => { s with controller := controller }
      | some w =>
        { s with
          controller := controller
          workers := s.workers.set i (w.execute statement)
          dropped := s.dropped ++ if statement = .clear then w.mTasks else [] }

end Pool

-- ---------------------------------------------------------------------------
-- Every task in one place
-- ---------------------------------------------------------------------------

/-- What a worker has, the oldest first. -/
def Worker.kept (w : Worker) : List Task := w.ran ++ w.current ++ w.mTasks ++ w.transit

namespace Pool

/-- Every task has its place, and the line of every worker is in order. -/
structure Inv (s : Pool) : Prop where
  places : (s.external ++ s.workers.flatMap Worker.kept ++ s.dropped).Perm (List.range s.pushed)
  order : ∀ w ∈ s.workers, (w.kept ++ s.external).Pairwise (· < ·)

section

variable {s : Pool} {loadLevel : Nat → Nat → Level}

theorem inv_new (n : Nat) (commands : List (Nat × Command)) : (new n commands).Inv where
  places := by
    have hNone : (List.replicate n Worker.new).flatMap Worker.kept = [] := by
      rw [List.flatMap_eq_nil_iff]
      intro w hw
      rw [List.eq_of_mem_replicate hw]
      rfl
    show ([] ++ (List.replicate n Worker.new).flatMap Worker.kept ++ []).Perm (List.range 0)
    rw [hNone]
    rfl
  order w hw := by
    rw [List.eq_of_mem_replicate hw]
    exact List.Pairwise.nil

theorem Inv.lt_pushed (h : s.Inv) {w : Worker} (hw : w ∈ s.workers) :
    ∀ task ∈ w.kept ++ s.external, task < s.pushed := by
  intro task hTask
  rw [← List.mem_range, ← h.places.mem_iff]
  rcases List.mem_append.mp hTask with hTask | hTask
  · simp only [List.mem_append, List.mem_flatMap]
    exact Or.inl (Or.inr ⟨w, hw, hTask⟩)
  · simp [hTask]

theorem Inv.push (h : s.Inv) : (s.step loadLevel .push).Inv where
  places := by
    show (s.external ++ [s.pushed] ++ s.workers.flatMap Worker.kept ++ s.dropped).Perm
      (List.range (s.pushed + 1))
    rw [List.range_succ, List.perm_iff_count]
    intro task
    have hCount := h.places.count_eq task
    simp only [List.count_append] at hCount ⊢
    omega
  order w hw := by
    have hOld := h.order w hw
    show (w.kept ++ (s.external ++ [s.pushed])).Pairwise (· < ·)
    rw [← List.append_assoc, List.pairwise_append]
    refine ⟨hOld, List.pairwise_singleton _ _, ?_⟩
    intro task hTask last hLast
    rw [List.mem_singleton.mp hLast]
    exact h.lt_pushed hw task hTask

/-- One worker replaced, and the tasks it has lost dropped. -/
theorem Inv.replace (h : s.Inv) {i : Nat} {w w' : Worker} {external dropped : List Task}
    {controller : List (Nat × Statement)} (hw : s.workers[i]? = some w)
    (hPlaces : (w'.kept ++ external ++ dropped).Perm (w.kept ++ s.external))
    (hOrder : (w'.kept ++ external).Sublist (w.kept ++ s.external))
    (hExternal : external.Sublist s.external) :
    Inv { s with external := external, workers := s.workers.set i w', controller := controller,
                 dropped := s.dropped ++ dropped } where
  places := by
    dsimp only
    obtain ⟨before, after, hWorkers, hSet⟩ : ∃ before after, s.workers = before ++ w :: after ∧
        s.workers.set i w' = before ++ w' :: after := by
      obtain ⟨hi, rfl⟩ := List.getElem?_eq_some_iff.mp hw
      refine ⟨s.workers.take i, s.workers.drop (i + 1), ?_, ?_⟩
      · rw [← List.drop_eq_getElem_cons hi, List.take_append_drop]
      · exact List.set_eq_take_append_cons_drop .. |>.trans (if_pos hi)
    refine List.Perm.trans ?_ h.places
    rw [hSet, hWorkers, List.perm_iff_count]
    intro task
    have hCount := hPlaces.count_eq task
    simp only [List.flatMap_append, List.flatMap_cons, List.count_append] at hCount ⊢
    omega
  order w₀ hw₀ := by
    have hSorted := h.order w (List.mem_of_getElem? hw)
    rcases List.mem_or_eq_of_mem_set hw₀ with hw₀ | rfl
    · exact (h.order w₀ hw₀).sublist (List.Sublist.append_left hExternal _)
    · exact hSorted.sublist hOrder

theorem Inv.work (h : s.Inv) (i : Nat) (timeout : Bool) :
    (s.step loadLevel (.work i timeout)).Inv := by
  rw [step]
  rcases hw : s.workers[i]? with _ | w
  · exact h
  have hMove := w.step_move loadLevel timeout s.external
  dsimp only
  rcases hStep : w.step loadLevel timeout s.external with ⟨w', external'⟩
  rw [hStep] at hMove
  -- the line of the worker is the same, and the queue has lost no more than its front
  have hLine : w'.kept ++ external' = w.kept ++ s.external := hMove.line
  have hNext : Inv { s with external := external', workers := s.workers.set i w',
                            dropped := s.dropped ++ [] } := by
    refine h.replace hw ?_ ?_ hMove.external_suffix.sublist
    · rw [List.append_nil, hLine]
    · rw [hLine]
  rwa [List.append_nil] at hNext

theorem kept_execute {w : Worker} {statement : Statement} (h : statement ≠ .clear) :
    (w.execute statement).kept = w.kept := by
  rcases statement with _ | _ | _ | _ | _ | _ | _ | _
  case clear => exact absurd rfl h
  all_goals rfl

theorem Inv.control (h : s.Inv) : (s.step loadLevel .control).Inv := by
  rw [step]
  rcases hController : s.controller with _ | ⟨⟨i, statement⟩, controller⟩
  · exact h
  dsimp only
  rcases hw : s.workers[i]? with _ | w
  · exact ⟨h.places, h.order⟩
  refine h.replace hw ?_ ?_ (List.Sublist.refl _)
  · by_cases hClear : statement = .clear
    · -- what was in the local queue is dropped
      subst hClear
      rw [List.perm_iff_count]
      intro task
      have hKept : (w.execute .clear).kept = w.ran ++ w.current ++ [] ++ w.transit := rfl
      rw [hKept, if_pos rfl, Worker.kept]
      simp only [List.count_append, List.count_nil]
      omega
    · rw [if_neg hClear, List.append_nil, kept_execute hClear]
  · refine List.Sublist.append_right ?_ _
    by_cases hClear : statement = .clear
    · subst hClear
      have hKept : (w.execute .clear).kept = w.ran ++ w.current ++ [] ++ w.transit := rfl
      rw [hKept, Worker.kept]
      exact ((List.nil_sublist _).append_left _).append_right _
    · rw [kept_execute hClear]

/-- **Every event keeps the invariant**, whatever the controller does. -/
theorem Inv.step (h : s.Inv) (e : PoolEvent) : (s.step loadLevel e).Inv := by
  rcases e with _ | ⟨i, timeout⟩ | _
  · exact h.push
  · exact h.work i timeout
  · exact h.control

end

end Pool

-- ---------------------------------------------------------------------------
-- Calls and pops
-- ---------------------------------------------------------------------------

/-- A pop finds a task, and a call follows a pop that has found one. -/
structure Worker.Valid (w : Worker) : Prop where
  popping : ∀ drain, w.pc = .pop drain → w.mTasks ≠ []
  calling : ∀ drain popped, w.pc = .invoke drain popped → popped = true ∧ w.taskWithFut.isSome
  called : ∀ i ∈ w.invoked, i.popped = true ∧ i.task.isSome

namespace Worker

variable {w : Worker} {loadLevel : Nat → Nat → Level}

theorem valid_new : new.Valid where
  popping _ hPc := by cases hPc
  calling _ _ hPc := by cases hPc
  called _ hMem := absurd hMem List.not_mem_nil

/-- If every call followed a pop that returned a task, the calls are of the tasks popped. -/
theorem Valid.executed_eq (h : w.Valid) : w.executed = w.ran := by
  refine List.filterMap_congr ?_
  intro i hi
  rw [Invocation.fresh, if_pos (h.called i hi).1]

/-- A step that goes neither to a pop nor to a call. -/
theorem Valid.of_pc (h : w.Valid) {w' : Worker} (hInvoked : w'.invoked = w.invoked)
    (hPop : ∀ drain, w'.pc ≠ .pop drain) (hInvoke : ∀ drain popped, w'.pc ≠ .invoke drain popped) :
    w'.Valid where
  popping drain hPc := absurd hPc (hPop drain)
  calling drain popped hPc := absurd hPc (hInvoke drain popped)
  called := hInvoked ▸ h.called

theorem Valid.step (h : w.Valid) (timeout : Bool) (external : List Task) :
    (w.step loadLevel timeout external).1.Valid := by
  unfold Worker.step
  rcases hPc : w.pc with _ | _ | _ | _ | _ | drain | ⟨drain, popped⟩ | _ | ⟨wait, task⟩ | _ | n |
    _ | x | temp | _ | _ | _ | _
  case test =>
    dsimp only
    split
    · rename_i hTasks
      exact ⟨fun _ _ => hTasks, fun _ _ hNext => (nomatch hNext), h.called⟩
    · split
      all_goals exact h.of_pc rfl (by simp) (by simp)
  case drain =>
    dsimp only
    split
    · rename_i hTasks
      exact ⟨fun _ _ => hTasks, fun _ _ hNext => (nomatch hNext), h.called⟩
    · exact h.of_pc rfl (by simp) (by simp)
  case pop =>
    dsimp only
    split
    · rename_i hTasks
      exact absurd hTasks (h.popping drain hPc)
    · refine ⟨fun _ hNext => (nomatch hNext), ?_, h.called⟩
      rintro _ _ ⟨⟩
      exact ⟨rfl, rfl⟩
  case invoke =>
    have hCalled : ∀ i ∈ w.invoked ++ [⟨w.taskWithFut, popped⟩],
        i.popped = true ∧ i.task.isSome := by
      intro i hi
      rcases List.mem_append.mp hi with hi | hi
      · exact h.called i hi
      · rw [List.mem_singleton.mp hi]
        exact h.calling drain popped hPc
    rcases drain with _ | _
    all_goals exact ⟨fun _ hNext => (nomatch hNext), fun _ _ hNext => (nomatch hNext), hCalled⟩
  case waitAndPop =>
    rcases external with _ | ⟨task, external⟩
    · rcases timeout with _ | _
      all_goals exact h.of_pc rfl (by simp) (by simp)
    · exact h.of_pc rfl (by simp) (by simp)
  case push =>
    rcases wait with _ | _
    all_goals exact h.of_pc rfl (by simp) (by simp)
  case addByLevel =>
    dsimp only
    split
    · split
      all_goals exact h.of_pc rfl (by simp) (by simp)
    · exact h.of_pc rfl (by simp) (by simp)
  case addTasks =>
    dsimp only
    split
    · exact h.of_pc rfl (by simp) (by simp)
    · split
      all_goals exact h.of_pc rfl (by simp) (by simp)
  case loop | pause | wipe | popOne | pushTemp =>
    dsimp only
    split
    all_goals exact h.of_pc rfl (by simp) (by simp)
  case start | lock | popN | inactive => exact h.of_pc rfl (by simp) (by simp)
  case returned => exact h

/-- A statement of the controller, unless it clears the queue before the pop. -/
theorem Valid.execute (h : w.Valid) {statement : Statement}
    (hClear : statement = .clear → ∀ drain, w.pc ≠ .pop drain) : (w.execute statement).Valid := by
  rcases statement with _ | _ | _ | _ | _ | _ | _ | _
  case clear => exact ⟨fun drain hPc => absurd hPc (hClear rfl drain), h.calling, h.called⟩
  all_goals exact ⟨h.popping, h.calling, h.called⟩

end Worker

-- ---------------------------------------------------------------------------
-- Pools without `CANCEL`
-- ---------------------------------------------------------------------------

namespace Pool

/-- The property: every task pushed is in one place, the external queue, a transit variable or
batch, a local queue, the variable of `work`, or among the calls, each of which follows a pop
that has returned its task; and every worker calls its tasks in the order of their pushes. -/
structure Conserved (s : Pool) : Prop where
  places : (s.external ++
      s.workers.flatMap fun w => w.transit ++ w.mTasks ++ w.current ++ w.executed).Perm
    (List.range s.pushed)
  calls : ∀ w ∈ s.workers, ∀ i ∈ w.invoked, i.popped = true ∧ i.task.isSome
  order : ∀ w ∈ s.workers, w.executed.Pairwise (· < ·)

/-- Nothing is cleared, has been or will be. -/
structure Steady (s : Pool) : Prop where
  inv : s.Inv
  valid : ∀ w ∈ s.workers, w.Valid
  noClear : ∀ c ∈ s.controller, c.2 ≠ .clear
  dropped : s.dropped = []

section

variable {s : Pool} {loadLevel : Nat → Nat → Level}

theorem Steady.conserved (h : s.Steady) : s.Conserved where
  places := by
    refine List.Perm.trans ?_ h.inv.places
    rw [h.dropped, List.append_nil]
    refine List.Perm.append_left _ (List.Perm.flatMap_left _ fun w hw => ?_)
    rw [(h.valid w hw).executed_eq, Worker.kept, List.perm_iff_count]
    intro task
    simp only [List.count_append]
    omega
  calls w hw := (h.valid w hw).called
  order w hw := by
    rw [(h.valid w hw).executed_eq]
    refine (h.inv.order w hw).sublist ?_
    rw [Worker.kept, List.append_assoc, List.append_assoc, List.append_assoc]
    exact List.sublist_append_left _ _

/-- What the event of a worker, or the statement that is executed on it, keeps in that worker,
it keeps in all of them. -/
theorem forall_step {P : Worker → Prop} {e : PoolEvent}
    (hStep : ∀ i timeout w, e = .work i timeout → s.workers[i]? = some w → P w →
      P (w.step loadLevel timeout s.external).1)
    (hExecute : ∀ i statement controller w, e = .control →
      s.controller = (i, statement) :: controller → s.workers[i]? = some w → P w →
      P (w.execute statement))
    (h : ∀ w ∈ s.workers, P w) : ∀ w ∈ (s.step loadLevel e).workers, P w := by
  rcases e with _ | ⟨i, timeout⟩ | _
  · exact h
  · rw [step]
    rcases hw : s.workers[i]? with _ | w
    · exact h
    · intro w₀ hw₀
      rcases List.mem_or_eq_of_mem_set hw₀ with hw₀ | rfl
      · exact h w₀ hw₀
      · exact hStep i timeout w rfl hw (h w (List.mem_of_getElem? hw))
  · rw [step]
    rcases hController : s.controller with _ | ⟨⟨i, statement⟩, controller⟩
    · exact h
    dsimp only
    rcases hw : s.workers[i]? with _ | w
    · exact h
    · intro w₀ hw₀
      rcases List.mem_or_eq_of_mem_set hw₀ with hw₀ | rfl
      · exact h w₀ hw₀
      · exact hExecute i statement controller w rfl hController hw (h w (List.mem_of_getElem? hw))

/-- Statements are taken from the front. -/
theorem controller_step (e : PoolEvent) : (s.step loadLevel e).controller <:+ s.controller := by
  rcases e with _ | ⟨i, timeout⟩ | _
  · exact List.suffix_rfl
  · rw [step]
    split
    · exact List.suffix_rfl
    · exact List.suffix_rfl
  · rw [step]
    split
    · exact List.suffix_rfl
    · rename_i c controller hController
      rw [hController]
      split
      · exact List.suffix_cons _ _
      · exact List.suffix_cons _ _

theorem dropped_step (hClear : ∀ c ∈ s.controller, c.2 ≠ .clear) (e : PoolEvent) :
    (s.step loadLevel e).dropped = s.dropped := by
  rcases e with _ | ⟨i, timeout⟩ | _
  · rfl
  · rw [step]
    split
    · rfl
    · rfl
  · rw [step]
    split
    · rfl
    · rename_i c controller hController
      split
      · rfl
      · have hHead : c ≠ .clear := hClear _ (hController ▸ List.mem_cons_self)
        dsimp only
        rw [if_neg hHead, List.append_nil]

theorem Steady.step (h : s.Steady) (e : PoolEvent) : (s.step loadLevel e).Steady where
  inv := h.inv.step e
  valid := by
    refine forall_step (fun _ timeout w _ _ hValid => hValid.step timeout s.external) ?_ h.valid
    intro i statement controller w _ hController _ hValid
    refine hValid.execute fun hClear => absurd hClear ?_
    exact h.noClear (i, statement) (hController ▸ List.mem_cons_self)
  noClear c hc := h.noClear c ((controller_step e).subset hc)
  dropped := by rw [dropped_step h.noClear, h.dropped]

/-- Only `CANCEL` clears. -/
theorem noClear_new {n : Nat} {commands : List (Nat × Command)}
    (h : ∀ c ∈ commands, c.2 ≠ .cancel) : ∀ c ∈ (new n commands).controller, c.2 ≠ .clear := by
  intro c hc
  obtain ⟨⟨i, command⟩, hCommand, hStatement⟩ := List.mem_flatMap.mp hc
  obtain ⟨statement, hMem, rfl⟩ := List.mem_map.mp hStatement
  have hCancel := h _ hCommand
  rintro rfl
  rcases command with _ | _ | _ | _ | _ | _ | _
  case cancel => exact hCancel rfl
  all_goals simp [Command.statements] at hMem

theorem steady_new {n : Nat} {commands : List (Nat × Command)}
    (h : ∀ c ∈ commands, c.2 ≠ .cancel) : (new n commands).Steady where
  inv := inv_new n commands
  valid w hw := by
    rw [List.eq_of_mem_replicate hw]
    exact Worker.valid_new
  noClear := noClear_new h
  dropped := rfl

/-- **Conservation.** In every run of any number of workers without `CANCEL`, every task is in
one place, and every worker runs its tasks in the order of their pushes. -/
theorem pool_conserves (loadLevel : Nat → Nat → Level) (n : Nat)
    {commands : List (Nat × Command)} (h : ∀ c ∈ commands, c.2 ≠ .cancel) (es : List PoolEvent) :
    Always (step loadLevel) Conserved (new n commands) es := by
  have hSteady : Always (step loadLevel) Steady (new n commands) es :=
    always_of_step (fun s e hs => hs.step e) (steady_new h)
  exact hSteady.imp fun s hs => hs.conserved

/-- Two workers, each linked to the queue, and three tasks: each runs one, and the third is left
with the first worker. -/
theorem pool_conserves_two :
    let s := new 2 [(0, .linkExternalTasks), (1, .linkExternalTasks)]
    let es := [.push, .push, .push, .control, .control] ++ List.replicate 7 (.work 0 false) ++
      List.replicate 7 (.work 1 false) ++ List.replicate 11 (.work 0 false) ++
      List.replicate 11 (.work 1 false)
    Always (step exactLevel) Conserved s es ∧
      (final (step exactLevel) s es).workers.map (fun w => (w.executed, w.mTasks)) =
        [([0], [2]), ([1], [])] :=
  ⟨pool_conserves exactLevel 2 (by decide) _, by decide⟩

end

end Pool

end WarringServer.Thread
