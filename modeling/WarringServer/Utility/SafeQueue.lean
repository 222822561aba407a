import WarringServer.Lib.Monitor

/-!
# The queue between the threads

Every hand-over between two threads of the servers goes through a `SafeQueue`: tasks to
workers, timer tasks to the wheel, buffers to the logger, results to the pool. Elsewhere
in this development it is a list, and each of its members is one step. Here the members run as
they are written, with a mutex and a condition variable: `push` notifies one thread, and the
waiting members wait with a predicate, for ever or for a limited time.

* `fifo` — for every interleaving, the elements leave the queue in the order in which
  they were pushed, each of them once, and every member returns what it returns on a list;
* `no_lost_wakeup` — a thread waits next to an element only while an awake thread is on
  its way to that element, unless somebody asks `waitAndPopN` for no element.
-/

namespace WarringServer.Utility

open Run Monitor

/-- The members. `timed` is the variant with `millisecs`. -/
inductive QueueCall (α : Type*) where
  | push (val : α)
  /-- `bool pop(T &val)` -/
  | pop
  /-- `std::shared_ptr<T> pop()` -/
  | popPtr
  | popN (n : Nat)
  /-- `waitAndPop` with a parameter for the element. -/
  | waitAndPop (timed : Bool)
  /-- `waitAndPop` that returns a pointer. -/
  | waitAndPopPtr (timed : Bool)
  | waitAndPopN (n : Nat)
  | empty
  | size
  | clear
  deriving DecidableEq, Repr

inductive Returned (α : Type*) where
  | nothing
  | flag (b : Bool)
  | count (n : Nat)
  | ptr (p : Option α)
  deriving DecidableEq, Repr

/-- What a member returns, and the elements it has taken out of `mData`. -/
structure Outcome (α : Type*) where
  ret : Returned α
  popped : List α
  deriving DecidableEq, Repr

namespace SafeQueue

variable {α : Type*}

/-- How often the member calls `mData.pop()`. -/
def pops (mData : List α) : QueueCall α → Nat
  | .push _ | .empty | .size => 0
  | .pop | .popPtr => if mData.isEmpty then 0 else 1
  | .popN n => if mData.isEmpty then 0 else min n mData.length
  | .waitAndPop _ | .waitAndPopPtr _ => 1
  | .waitAndPopN n => min n mData.length
  | .clear => mData.length

def returned (mData : List α) : QueueCall α → Returned α
  | .push _ | .waitAndPopN _ | .clear => .nothing
  | .pop => .flag (!mData.isEmpty)
  | .popPtr | .waitAndPopPtr _ => .ptr mData.head?
  | .popN n => .count (if mData.isEmpty then 0 else min n mData.length)
  | .waitAndPop timed => if timed then .flag true else .nothing
  | .empty => .flag mData.isEmpty
  | .size => .count mData.length

/-- The members on `mData`, the front of the queue first. -/
def calls : Calls (List α) (QueueCall α) (Outcome α) where
  ready
    | .waitAndPop _, mData | .waitAndPopPtr _, mData | .waitAndPopN _, mData => !mData.isEmpty
    | _, _ => true
  act
    | .push val, mData => mData ++ [val]
    | call, mData => mData.drop (pops mData call)
  result call mData := ⟨returned mData call, mData.take (pops mData call)⟩
  notifies
    | .push _ => true
    | _ => false
  timed
    | .waitAndPop timed | .waitAndPopPtr timed => timed
    | _ => false

/-- A queue, with the threads that use it. -/
abbrev State (α : Type*) := Monitor.State (List α) (QueueCall α) (Outcome α) Nat

def init : State α := .init []

def step : State α → Event (QueueCall α) Nat → State α := Monitor.State.step calls

/-- The elements that have been pushed. -/
def pushed (log : List (Entry Nat (QueueCall α) (Outcome α))) : List α :=
  log.filterMap fun e =>
    match e.call with
    | .push val => some val
    | _ => none

/-- The elements that have been taken out. -/
def popped (log : List (Entry Nat (QueueCall α) (Outcome α))) : List α :=
  log.flatMap fun e =>
    match e.result with
    | some r => r.popped
    | none => []

/-- How many elements a member takes. -/
def Takes : QueueCall α → Option (Outcome α) → Prop
  | .push _, r | .empty, r | .size, r => ∃ ret, r = some ⟨ret, []⟩
  | .pop, r => r = some ⟨.flag false, []⟩ ∨ ∃ x, r = some ⟨.flag true, [x]⟩
  | .popPtr, r => r = some ⟨.ptr none, []⟩ ∨ ∃ x, r = some ⟨.ptr (some x), [x]⟩
  | .popN n, r => ∃ xs, xs.length ≤ n ∧ r = some ⟨.count xs.length, xs⟩
  | .waitAndPop timed, r =>
    (timed = true ∧ (r = none ∨ ∃ x, r = some ⟨.flag true, [x]⟩)) ∨
      (timed = false ∧ ∃ x, r = some ⟨.nothing, [x]⟩)
  | .waitAndPopPtr timed, r =>
    (timed = true ∧ r = none) ∨ ∃ x, r = some ⟨.ptr (some x), [x]⟩
  | .waitAndPopN n, r => ∃ xs, xs.length ≤ n ∧ (0 < n → xs ≠ []) ∧ r = some ⟨.nothing, xs⟩
  | .clear, r => ∃ xs, r = some ⟨.nothing, xs⟩

-- ---------------------------------------------------------------------------
-- First in, first out
-- ---------------------------------------------------------------------------

section

variable {mData mData' : List α} {log : List (Entry Nat (QueueCall α) (Outcome α))}

/-- A member that is not `push` takes the front part. -/
theorem act_eq {call : QueueCall α} (h : ∀ val, call ≠ .push val) :
    calls.act call mData = mData.drop (pops mData call) := by
  rcases call with val | _ | _ | n | timed | timed | n | _ | _ | _
  · exact absurd rfl (h val)
  all_goals rfl

theorem line_of_replays (h : Replays calls mData log mData') :
    mData ++ pushed log = popped log ++ mData' := by
  induction log generalizing mData with
  | nil =>
    obtain rfl : mData' = mData := h
    exact List.append_nil _
  | cons e log ih =>
    obtain ⟨thread, call, result⟩ := e
    rcases result with _ | r
    · -- a member that gives up is not `push`, and takes nothing
      obtain ⟨-, hTimed, hRest⟩ := h
      have hPushed : pushed (⟨thread, call, none⟩ :: log) = pushed log := by
        rcases call with val | _ | _ | n | timed | timed | n | _ | _ | _
        · cases hTimed
        all_goals rfl
      rw [hPushed]
      exact ih hRest
    · have hResult : r = calls.result call mData := h.2.1
      subst hResult
      have hLine := ih h.2.2
      by_cases hPush : ∃ val, call = .push val
      · obtain ⟨val, rfl⟩ := hPush
        rw [show calls.act (.push val) mData = mData ++ [val] from rfl, List.append_assoc] at hLine
        exact hLine
      · have hNot : ∀ val, call ≠ .push val := fun val hEq => hPush ⟨val, hEq⟩
        have hPushed : pushed (⟨thread, call, some (calls.result call mData)⟩ :: log) =
            pushed log := by
          rcases call with val | _ | _ | n | timed | timed | n | _ | _ | _
          · exact absurd rfl (hNot val)
          all_goals rfl
        have hPopped : popped (⟨thread, call, some (calls.result call mData)⟩ :: log) =
            mData.take (pops mData call) ++ popped log := rfl
        rw [act_eq hNot] at hLine
        rw [hPushed, hPopped, List.append_assoc, ← hLine, ← List.append_assoc,
          List.take_append_drop]

theorem takes_of_ready {call : QueueCall α} (h : calls.ready call mData = true) :
    Takes call (some (calls.result call mData)) := by
  rcases call with val | _ | _ | n | timed | timed | n | _ | _ | _
  case push | empty | size => exact ⟨_, rfl⟩
  case pop =>
    rcases mData with _ | ⟨x, rest⟩
    · exact Or.inl rfl
    · exact Or.inr ⟨x, rfl⟩
  case popPtr =>
    rcases mData with _ | ⟨x, rest⟩
    · exact Or.inl rfl
    · exact Or.inr ⟨x, rfl⟩
  case popN =>
    rcases mData with _ | ⟨x, rest⟩
    · exact ⟨[], Nat.zero_le n, rfl⟩
    · have hLength : ((x :: rest).take (min n (x :: rest).length)).length =
          min n (x :: rest).length := by
        rw [List.length_take]
        omega
      refine ⟨(x :: rest).take (min n (x :: rest).length), by omega, ?_⟩
      rw [hLength]
      rfl
  case waitAndPop =>
    rcases mData with _ | ⟨x, rest⟩
    · cases h
    · rcases timed with _ | _
      · exact Or.inr ⟨rfl, x, rfl⟩
      · exact Or.inl ⟨rfl, Or.inr ⟨x, rfl⟩⟩
  case waitAndPopPtr =>
    rcases mData with _ | ⟨x, rest⟩
    · cases h
    · exact Or.inr ⟨x, rfl⟩
  case waitAndPopN =>
    rcases mData with _ | ⟨x, rest⟩
    · cases h
    · refine ⟨(x :: rest).take (min n (x :: rest).length), ?_, ?_, rfl⟩
      · rw [List.length_take]
        omega
      · intro hn hNil
        have hLength := congrArg List.length hNil
        rw [List.length_take, List.length_cons, List.length_nil] at hLength
        omega
  case clear => exact ⟨_, rfl⟩

theorem takes_of_timed {call : QueueCall α} (h : calls.timed call = true) :
    Takes call none := by
  rcases call with val | _ | _ | n | timed | timed | n | _ | _ | _
  case waitAndPop => exact Or.inl ⟨h, Or.inl rfl⟩
  case waitAndPopPtr => exact Or.inl ⟨h, rfl⟩
  all_goals cases h

/-- **First in, first out.** Whatever the threads do, the elements that were pushed are the ones
that were popped, in the order of the pushes, followed by those in the queue; the members
that have returned are a sequential use of a list; and each has got as many elements as it
promises, one that waits without a limit never less than one. -/
theorem fifo (events : List (Event (QueueCall α) Nat)) :
    let s := final step init events
    pushed s.log = popped s.log ++ s.data ∧ Replays calls [] s.log s.data ∧
      ∀ e ∈ s.log, Takes e.call e.result := by
  have hReplays := replay_log (ι := Nat) calls ([] : List α) events
  refine ⟨line_of_replays hReplays, hReplays, fun e he => ?_⟩
  rcases hReplays.mem he with ⟨hNone, hTimed⟩ | ⟨d, hReady, hSome⟩
  · rw [hNone]
    exact takes_of_timed hTimed
  · rw [hSome]
    exact takes_of_ready hReady

-- ---------------------------------------------------------------------------
-- Wakeups
-- ---------------------------------------------------------------------------

/-- Nobody waits in vain: next to a thread in the wait set there are no more elements than
threads awake, and when those have tested, nobody waits or there is no element. -/
structure Awakened (s : State α) : Prop where
  enough : s.waiting ≠ [] → s.data.length ≤ s.awake.length
  all_tested : (s.settle calls).awake = []
  settled : (s.settle calls).waiting = [] ∨ (s.settle calls).data = []

/-- A call of `waitAndPopN` asks for something. -/
def Asks : QueueCall α → Prop
  | .waitAndPopN n => 0 < n
  | _ => True

theorem length_drop_lt {n : Nat} (hn : 0 < n) (h : 0 < mData.length) :
    (mData.drop n).length < mData.length := by
  rw [List.length_drop]
  omega

/-- Each member either takes an element it has waited for, or need not wait. -/
theorem passing_or_taking {call : QueueCall α} (h : Asks call) :
    Passing calls List.length call ∨ Taking calls List.length call := by
  have hReady : ∀ d : List α, (!d.isEmpty) = true ↔ 0 < d.length := by
    intro d
    rcases d with _ | ⟨x, rest⟩
    · simp
    · simp
  have hDrop : ∀ n, ∀ d : List α, (d.drop n).length ≤ d.length + 0 := by
    intro n d
    rw [List.length_drop]
    omega
  rcases call with val | _ | _ | n | timed | timed | n | _ | _ | _
  case push => exact Or.inl ⟨fun _ => rfl, fun d => Nat.le_of_eq List.length_append⟩
  case waitAndPop => exact Or.inr ⟨hReady, fun d hd => length_drop_lt Nat.one_pos hd, rfl⟩
  case waitAndPopPtr => exact Or.inr ⟨hReady, fun d hd => length_drop_lt Nat.one_pos hd, rfl⟩
  case waitAndPopN =>
    refine Or.inr ⟨hReady, fun d hd => length_drop_lt (Nat.lt_min.mpr ⟨h, hd⟩) hd, rfl⟩
  all_goals exact Or.inl ⟨fun _ => rfl, fun d => hDrop _ d⟩

/-- **No lost wakeup**, in any run in which nobody asks `waitAndPopN` for no element. -/
theorem no_lost_wakeup {events : List (Event (QueueCall α) Nat)}
    (h : ∀ e ∈ events, e.Makes Asks) : Always step Awakened init events := by
  have hCalls : ∀ e ∈ events, e.Makes fun call =>
      Passing calls List.length call ∨ Taking calls List.length call := by
    intro e he
    rcases e with ⟨thread, call, chosen⟩ | ⟨i, timedOut⟩ | ⟨i, chosen⟩
    · exact passing_or_taking (h _ he)
    · trivial
    · trivial
  refine (supplied_of_counts hCalls).imp ?_
  intro s hs
  obtain ⟨hAwake, hSettled⟩ := settled_of_counts hs
  exact ⟨hs.supplied, hAwake, hSettled.imp id List.eq_nil_of_length_eq_zero⟩

end

/-- Two threads wait, and two pushes notify one of them each. -/
def twoWaiting : List (Event (QueueCall Nat) Nat) :=
  [.call 0 (.waitAndPop false) 0, .call 1 (.waitAndPopN 2) 0, .call 2 (.push 7) 1,
    .call 2 (.push 8) 0, .test 0 0, .test 0 0]

theorem no_lost_wakeup_twoWaiting : Always step Awakened init twoWaiting :=
  no_lost_wakeup (by simp [twoWaiting, Event.Makes, Asks])

/-- A thread that asks for no element uses the notification up. -/
example : ¬ Awakened (final step init [.call 0 (.waitAndPop false) 0, .call 1 (.waitAndPopN 0) 0,
    .call 2 (.push 7) 1, .test 0 0]) :=
  fun h => absurd (h.enough (by decide)) (by decide)

end SafeQueue

end WarringServer.Utility
