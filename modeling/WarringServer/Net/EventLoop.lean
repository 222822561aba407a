import Mathlib.Data.Prod.Lex
import Mathlib.Order.WellFounded
import WarringServer.Lib.Fairness

/-!
# Stopping the event loops

Each thread of a pool runs `EventLoop::loop`: it sets `mRunning`, and then polls and handles
while the flag is set. The destructor of the pool destroys the threads in order; each
destructor clears the flag, writes to the loop's eventfd to end a poll, and joins the thread.
The flag is read and written without a lock; the model takes the statements of the threads one
after another, in any order.

* `Woken` — what holds of a loop that is being joined: no poll of it can last;
* `Missed` — a flag that was cleared before the loop has set it;
* `destroyed_iff` — in every fair schedule, the destructor of the pool returns if and only if
  each loop has begun when it is told to quit; then every loop has returned.

The time-out of a poll is an event that need not happen.
-/

namespace WarringServer.Net

open Run

-- ---------------------------------------------------------------------------
-- A loop
-- ---------------------------------------------------------------------------

/-- `mWakeupHandler`, or the handler of a connection. -/
inductive LoopHandler where
  | wakeup
  | connection
  deriving DecidableEq, Repr

/-- The statement that is next in `loop`. -/
inductive LoopPoint where
  /-- `mRunning = true` -/
  | begin
  /-- `while (mRunning)` -/
  | test
  | poll
  | handle (mEventHandlers : List LoopHandler)
  | returned
  deriving DecidableEq, Repr

/-- A loop and its thread; `counter` is the value of the eventfd `mWakeupFD`. -/
structure EventLoop where
  point : LoopPoint
  mRunning : Bool
  counter : Nat
  deriving DecidableEq, Repr

namespace EventLoop

def new : EventLoop := ⟨.begin, false, 0⟩

/-- The largest value of an eventfd. A write beyond it fails with `EAGAIN`. -/
def counterMax : Nat := 0xfffffffffffffffe

def wakeup (l : EventLoop) : EventLoop :=
  { l with counter := if l.counter < counterMax then l.counter + 1 else l.counter }

/-- A read resets the counter; it fails if there is nothing to reset. -/
def nap (l : EventLoop) : EventLoop := { l with counter := 0 }

/-- The first statement of `quit`. -/
def clearRunning (l : EventLoop) : EventLoop := { l with mRunning := false }

/-- The handlers of a poll, if the handlers `ready` compete for it. It need not report the eventfd,
but does not block as long as the counter is positive. -/
def polled (l : EventLoop) (ready : List LoopHandler) : List LoopHandler :=
  if 0 < l.counter then
    if ready = [] then [.wakeup] else ready
  else ready.filter (· = .connection)

/-- The next statement of the thread; a poll with nothing to report blocks. -/
def next (l : EventLoop) (ready : List LoopHandler) : EventLoop :=
  match l.point with
  | .begin => { l with point := .test, mRunning := true }
  | .test => { l with point := if l.mRunning then .poll else .returned }
  | .poll =>
    match l.polled ready with
    | [] => l
    | handler :: handlers => { l with point := .handle (handler :: handlers) }
  | .handle [] => { l with point := .test }
  | .handle (.wakeup :: handlers) => { l.nap with point := .handle handlers }
  | .handle (.connection :: handlers) => { l with point := .handle handlers }
  | .returned => l

/-- A poll ends with nothing to report, after `POLL_TIMEOUT_MS` or because of a signal. -/
def timeout (l : EventLoop) : EventLoop :=
  match l.point with
  | .poll => { l with point := .handle [] }
  | _ => l

end EventLoop

-- ---------------------------------------------------------------------------
-- The pool and its destructor
-- ---------------------------------------------------------------------------

/-- The statement that is next in the destructors of the threads. -/
inductive Destruction where
  /-- `mRunning = false` of the `i`-th thread's loop -/
  | quit (i : Nat)
  /-- `wakeup()` -/
  | wakeup (i : Nat)
  | join (i : Nat)
  | done
  deriving DecidableEq, Repr

structure LoopPool where
  loops : List EventLoop
  destructor : Destruction
  deriving DecidableEq, Repr

inductive LoopEvent where
  /-- The `i`-th thread executes a statement. -/
  | loop (i : Nat) (ready : List LoopHandler)
  | timeout (i : Nat)
  /-- Another thread calls `addEvent` or `removeEvent`. -/
  | wakeup (i : Nat)
  /-- The destructor executes a statement. -/
  | destructor
  deriving DecidableEq, Repr

/-- Who executes statements. -/
inductive LoopParty where
  | loop (i : Nat)
  | destructor
  deriving DecidableEq, Repr

def LoopEvent.party : LoopEvent → Option LoopParty
  | .loop i _ => some (.loop i)
  | .timeout _ | .wakeup _ => none
  | .destructor => some .destructor

/-- What an event that is not of the destructor does to the `j`-th loop. -/
def EventLoop.after (l : EventLoop) (j : Nat) : LoopEvent → EventLoop
  | .loop i ready => if i = j then l.next ready else l
  | .timeout i => if i = j then l.timeout else l
  | .wakeup i => if i = j then l.wakeup else l
  | .destructor => l

namespace LoopPool

/-- The destructor goes on with the `i`-th thread, if there is one. -/
def destroy (loops : List EventLoop) (i : Nat) : Destruction :=
  if i < loops.length then .quit i else .done

def init (num : Nat) : LoopPool :=
  ⟨List.replicate num .new, destroy (List.replicate num .new) 0⟩

def step (s : LoopPool) : LoopEvent → LoopPool
  | .loop i ready => { s with loops := s.loops.modify i (·.next ready) }
  | .timeout i => { s with loops := s.loops.modify i (·.timeout) }
  | .wakeup i => { s with loops := s.loops.modify i (·.wakeup) }
  | .destructor =>
    match s.destructor with
    | .quit i => ⟨s.loops.modify i (·.clearRunning), .wakeup i⟩
    | .wakeup i => ⟨s.loops.modify i (·.wakeup), .join i⟩
    | .join i =>
      if (s.loops[i]?.map EventLoop.point) = some .returned then
        { s with destructor := destroy s.loops (i + 1) }
      else s
    | .done => s

/-- The threads of the pool and the destructor. -/
def parties (num : Nat) : Set LoopParty := {p | p = .destructor ∨ ∃ i < num, p = .loop i}

/-- A loop that is told to quit has begun. -/
def InTime (s : LoopPool) (e : LoopEvent) : Prop :=
  e = .destructor → ∀ i l, s.destructor = .quit i → s.loops[i]? = some l → l.point ≠ .begin

-- ---------------------------------------------------------------------------
-- One loop on its way out
-- ---------------------------------------------------------------------------

end LoopPool

/-- How far the thread is from its return, when the flag is cleared. -/
def LoopPoint.phase : LoopPoint → Nat
  | .begin | .returned => 0
  | .test => 1
  | .handle _ => 2
  | .poll => 3

/-- The handlers still to be called. -/
def LoopPoint.handlers : LoopPoint → Nat
  | .handle handlers => handlers.length
  | .begin | .test | .poll | .returned => 0

/-- Nearer to the return. -/
def LoopPoint.Nearer (p q : LoopPoint) : Prop :=
  p.phase < q.phase ∨ p.phase = q.phase ∧ p.handlers < q.handlers

namespace EventLoop

/-- The loop has begun, and its flag is cleared. -/
structure Stopped (l : EventLoop) : Prop where
  begun : l.point ≠ .begin
  cleared : l.mRunning = false

/-- A poll of a loop that has been woken up does not block. -/
structure Woken (l : EventLoop) : Prop extends l.Stopped where
  awake : l.point = .poll → 0 < l.counter

/-- The flag is set, or will be set again. -/
structure Misses (l : EventLoop) : Prop where
  running : l.point ≠ .begin → l.mRunning = true
  stays : l.point ≠ .returned

section

variable {l : EventLoop} {i j : Nat} {e : LoopEvent}

theorem wakeup_pos (l : EventLoop) : 0 < l.wakeup.counter := by
  rw [wakeup]
  dsimp only
  split
  · omega
  · rename_i hMax
    have hPos : 0 < counterMax := by decide
    omega

theorem polled_ne_nil (h : 0 < l.counter) (ready : List LoopHandler) : l.polled ready ≠ [] := by
  rw [polled, if_pos h]
  split
  · exact List.cons_ne_nil _ _
  · assumption

/-- The statements, case by case. -/
theorem next_cases (l : EventLoop) (ready : List LoopHandler) :
    (l.point = .begin ∧ l.next ready = { l with point := .test, mRunning := true }) ∨
    (l.point = .test ∧
      l.next ready = { l with point := if l.mRunning then .poll else .returned }) ∨
    (l.point = .poll ∧ l.polled ready = [] ∧ l.next ready = l) ∨
    (l.point = .poll ∧ ∃ handlers, l.next ready = { l with point := .handle handlers }) ∨
    (l.point = .handle [] ∧ l.next ready = { l with point := .test }) ∨
    (∃ handler handlers counter, l.point = .handle (handler :: handlers) ∧
      l.next ready = ⟨.handle handlers, l.mRunning, counter⟩) ∨
    l.point = .returned ∧ l.next ready = l := by
  obtain ⟨point, mRunning, counter⟩ := l
  rcases point with _ | _ | _ | ⟨_ | ⟨_ | _, handlers⟩⟩ | _
  case begin => exact Or.inl ⟨rfl, rfl⟩
  case test => exact Or.inr (Or.inl ⟨rfl, rfl⟩)
  case poll =>
    rw [next]
    dsimp only
    split
    · rename_i hPolled
      exact Or.inr (Or.inr (Or.inl ⟨rfl, hPolled, rfl⟩))
    · exact Or.inr (Or.inr (Or.inr (Or.inl ⟨rfl, _, rfl⟩)))
  case handle.nil => exact Or.inr (Or.inr (Or.inr (Or.inr (Or.inl ⟨rfl, rfl⟩))))
  case handle.cons.wakeup =>
    exact Or.inr (Or.inr (Or.inr (Or.inr (Or.inr (Or.inl ⟨_, _, _, rfl, rfl⟩)))))
  case handle.cons.connection =>
    exact Or.inr (Or.inr (Or.inr (Or.inr (Or.inr (Or.inl ⟨_, _, _, rfl, rfl⟩)))))
  case returned => exact Or.inr (Or.inr (Or.inr (Or.inr (Or.inr (Or.inr ⟨rfl, rfl⟩)))))

/-- **One statement** of a thread that has been woken up brings it nearer to its return. -/
theorem Woken.next (h : l.Woken) (ready : List LoopHandler) :
    (l.next ready).Woken ∧
      (l.point = .returned ∧ l.next ready = l ∨ (l.next ready).point.Nearer l.point) := by
  rcases next_cases l ready with ⟨hPoint, hNext⟩ | ⟨hPoint, hNext⟩ | ⟨hPoint, hPolled, hNext⟩ |
    ⟨hPoint, handlers, hNext⟩ | ⟨hPoint, hNext⟩ | ⟨handler, handlers, counter, hPoint, hNext⟩ |
    ⟨hPoint, hNext⟩
  · exact absurd hPoint h.begun
  · rw [hNext, hPoint, h.cleared]
    exact ⟨⟨⟨by simp, rfl⟩, by simp⟩, Or.inr (Or.inl Nat.zero_lt_one)⟩
  · -- the counter is positive
    exact absurd hPolled (polled_ne_nil (h.awake hPoint) ready)
  · rw [hNext, hPoint]
    exact ⟨⟨⟨by simp, h.cleared⟩, by simp⟩, Or.inr (Or.inl Nat.le.refl)⟩
  · rw [hNext, hPoint]
    exact ⟨⟨⟨by simp, h.cleared⟩, by simp⟩, Or.inr (Or.inl Nat.le.refl)⟩
  · rw [hNext, hPoint]
    exact ⟨⟨⟨by simp, h.cleared⟩, by simp⟩, Or.inr (Or.inr ⟨rfl, Nat.le.refl⟩)⟩
  · rw [hNext]
    exact ⟨h, Or.inl ⟨hPoint, rfl⟩⟩

theorem Stopped.next (h : l.Stopped) (ready : List LoopHandler) : (l.next ready).Stopped := by
  rcases next_cases l ready with ⟨hPoint, hNext⟩ | ⟨hPoint, hNext⟩ | ⟨hPoint, hPolled, hNext⟩ |
    ⟨hPoint, handlers, hNext⟩ | ⟨hPoint, hNext⟩ | ⟨handler, handlers, counter, hPoint, hNext⟩ |
    ⟨hPoint, hNext⟩
  · exact absurd hPoint h.begun
  · rw [hNext, h.cleared]
    exact ⟨by simp, rfl⟩
  · rw [hNext]
    exact h
  · rw [hNext]
    exact ⟨by simp, h.cleared⟩
  · rw [hNext]
    exact ⟨by simp, h.cleared⟩
  · rw [hNext]
    exact ⟨by simp, h.cleared⟩
  · rw [hNext]
    exact h

theorem Misses.next (h : l.Misses) (ready : List LoopHandler) : (l.next ready).Misses := by
  rcases next_cases l ready with ⟨hPoint, hNext⟩ | ⟨hPoint, hNext⟩ | ⟨hPoint, hPolled, hNext⟩ |
    ⟨hPoint, handlers, hNext⟩ | ⟨hPoint, hNext⟩ | ⟨handler, handlers, counter, hPoint, hNext⟩ |
    ⟨hPoint, hNext⟩
  · rw [hNext]
    exact ⟨fun _ => rfl, by simp⟩
  · -- the flag is set, so the loop goes on
    have hRunning := h.running (by simp [hPoint])
    rw [hNext, hRunning]
    exact ⟨fun _ => rfl, by simp⟩
  · rw [hNext]
    exact h
  · rw [hNext]
    exact ⟨fun _ => h.running (by simp [hPoint]), by simp⟩
  · rw [hNext]
    exact ⟨fun _ => h.running (by simp [hPoint]), by simp⟩
  · rw [hNext]
    exact ⟨fun _ => h.running (by simp [hPoint]), by simp⟩
  · exact absurd hPoint h.stays

theorem timeout_cases (l : EventLoop) :
    l.timeout = l ∨ l.point = .poll ∧ l.timeout = { l with point := .handle [] } := by
  obtain ⟨point, mRunning, counter⟩ := l
  rcases point with _ | _ | _ | _ | _
  case poll => exact Or.inr ⟨rfl, rfl⟩
  all_goals exact Or.inl rfl

/-- What an event does to the loop, unless the destructor executes a statement. -/
theorem after_cases (l : EventLoop) (j : Nat) (e : LoopEvent) :
    l.after j e = l ∧ e.party ≠ some (.loop j) ∨
      (∃ ready, e.party = some (.loop j) ∧ l.after j e = l.next ready) ∨
      (e.party ≠ some (.loop j) ∧ l.after j e = l.timeout) ∨
      e.party ≠ some (.loop j) ∧ l.after j e = l.wakeup := by
  rcases e with ⟨i, ready⟩ | i | i | _
  · by_cases hi : i = j
    · exact Or.inr (Or.inl ⟨ready, by rw [hi]; rfl, if_pos hi⟩)
    · exact Or.inl ⟨if_neg hi, by simp [LoopEvent.party, hi]⟩
  · by_cases hi : i = j
    · exact Or.inr (Or.inr (Or.inl ⟨by simp [LoopEvent.party], if_pos hi⟩))
    · exact Or.inl ⟨if_neg hi, by simp [LoopEvent.party]⟩
  · by_cases hi : i = j
    · exact Or.inr (Or.inr (Or.inr ⟨by simp [LoopEvent.party], if_pos hi⟩))
    · exact Or.inl ⟨if_neg hi, by simp [LoopEvent.party]⟩
  · exact Or.inl ⟨rfl, by simp [LoopEvent.party]⟩

theorem after_returned (h : l.point = .returned) (j : Nat) (e : LoopEvent) :
    (l.after j e).point = .returned := by
  obtain ⟨point, mRunning, counter⟩ := l
  dsimp only at h
  subst h
  rcases after_cases ⟨.returned, mRunning, counter⟩ j e with ⟨hAfter, -⟩ | ⟨ready, -, hAfter⟩ |
    ⟨-, hAfter⟩ | ⟨-, hAfter⟩
  · rw [hAfter]
  · rw [hAfter]
    rfl
  · rw [hAfter]
    rfl
  · rw [hAfter]
    rfl

theorem Stopped.after (h : l.Stopped) (j : Nat) (e : LoopEvent) : (l.after j e).Stopped := by
  rcases after_cases l j e with ⟨hAfter, -⟩ | ⟨ready, -, hAfter⟩ | ⟨-, hAfter⟩ | ⟨-, hAfter⟩
  · rw [hAfter]
    exact h
  · rw [hAfter]
    exact h.next ready
  · rw [hAfter]
    rcases timeout_cases l with hEq | ⟨-, hEq⟩
    · rw [hEq]
      exact h
    · rw [hEq]
      exact ⟨by simp, h.cleared⟩
  · rw [hAfter]
    exact ⟨h.begun, h.cleared⟩

theorem Misses.after (h : l.Misses) (j : Nat) (e : LoopEvent) : (l.after j e).Misses := by
  rcases after_cases l j e with ⟨hAfter, -⟩ | ⟨ready, -, hAfter⟩ | ⟨-, hAfter⟩ | ⟨-, hAfter⟩
  · rw [hAfter]
    exact h
  · rw [hAfter]
    exact h.next ready
  · rw [hAfter]
    rcases timeout_cases l with hEq | ⟨hPoint, hEq⟩
    · rw [hEq]
      exact h
    · rw [hEq]
      exact ⟨fun _ => h.running (by simp [hPoint]), by simp⟩
  · rw [hAfter]
    exact ⟨h.running, h.stays⟩

/-- Any event keeps a thread on its way, and its own ones bring it nearer. -/
theorem Woken.after (h : l.Woken) (j : Nat) (e : LoopEvent) :
    (l.after j e).Woken ∧ ((l.after j e).point.Nearer l.point ∨
      (l.after j e).point = l.point ∧ (e.party = some (.loop j) → l.point = .returned)) := by
  rcases after_cases l j e with ⟨hAfter, hNot⟩ | ⟨ready, -, hAfter⟩ | ⟨hNot, hAfter⟩ |
    ⟨hNot, hAfter⟩
  · rw [hAfter]
    exact ⟨h, Or.inr ⟨rfl, fun hParty => absurd hParty hNot⟩⟩
  · rw [hAfter]
    obtain ⟨hWoken, ⟨hPoint, hEq⟩ | hNearer⟩ := h.next ready
    · exact ⟨hWoken, Or.inr ⟨congrArg EventLoop.point hEq, fun _ => hPoint⟩⟩
    · exact ⟨hWoken, Or.inl hNearer⟩
  · rw [hAfter]
    rcases timeout_cases l with hEq | ⟨hPoint, hEq⟩
    · rw [hEq]
      exact ⟨h, Or.inr ⟨rfl, fun hParty => absurd hParty hNot⟩⟩
    · rw [hEq, hPoint]
      exact ⟨⟨⟨by simp, h.cleared⟩, by simp⟩, Or.inl (Or.inl Nat.le.refl)⟩
  · rw [hAfter]
    exact ⟨⟨⟨h.begun, h.cleared⟩, fun _ => wakeup_pos l⟩,
      Or.inr ⟨rfl, fun hParty => absurd hParty hNot⟩⟩

end

end EventLoop

-- ---------------------------------------------------------------------------
-- The destructor
-- ---------------------------------------------------------------------------

namespace LoopPool

/-- The thread the destructor is at has done what it has to do so far. -/
def OnTheWay (s : LoopPool) : Prop :=
  match s.destructor with
  | .quit i => i < s.loops.length
  | .wakeup i => ∃ l, s.loops[i]? = some l ∧ l.Stopped
  | .join i => ∃ l, s.loops[i]? = some l ∧ l.Woken
  | .done => True

/-- The destructor is past `quit` of the `i`-th thread, and the thread does not return. -/
def Missed (i : Nat) (s : LoopPool) : Prop :=
  (s.destructor = .wakeup i ∨ s.destructor = .join i) ∧
    ∃ l, s.loops[i]? = some l ∧ l.Misses

/-- How many threads have been joined. -/
def joined (s : LoopPool) : Nat :=
  match s.destructor with
  | .quit i | .wakeup i | .join i => i
  | .done => s.loops.length

/-- The statements the destructor has to execute. -/
def left (s : LoopPool) : Nat :=
  match s.destructor with
  | .quit i => 3 * (s.loops.length - i)
  | .wakeup i => 3 * (s.loops.length - i) - 1
  | .join i => 3 * (s.loops.length - i) - 2
  | .done => 0

/-- Where the thread is that the destructor waits for. -/
def awaited (s : LoopPool) : LoopPoint :=
  match s.destructor with
  | .join i =>
    match s.loops[i]? with
    | some l => l.point
    | none => .returned
  | .quit _ | .wakeup _ | .done => .returned

/-- Whose statement brings the destruction forward. -/
def due (s : LoopPool) : LoopParty :=
  match s.destructor with
  | .join i => if s.awaited = .returned then .destructor else .loop i
  | .quit _ | .wakeup _ | .done => .destructor

def rank (s : LoopPool) : ℕ ×ₗ ℕ := toLex (4 * s.left + s.awaited.phase, s.awaited.handlers)

section

variable {s : LoopPool} {e : LoopEvent} {i j : Nat}

/-- The events that are not of the destructor act on each loop by itself. -/
theorem step_other (s : LoopPool) (h : e ≠ .destructor) :
    (s.step e).destructor = s.destructor ∧ (s.step e).loops.length = s.loops.length ∧
      ∀ j, (s.step e).loops[j]? = s.loops[j]?.map (EventLoop.after · j e) := by
  rcases e with ⟨i, ready⟩ | i | i | _
  · exact ⟨rfl, List.length_modify _ _ _, fun j => List.getElem?_modify _ _ _ _⟩
  · exact ⟨rfl, List.length_modify _ _ _, fun j => List.getElem?_modify _ _ _ _⟩
  · exact ⟨rfl, List.length_modify _ _ _, fun j => List.getElem?_modify _ _ _ _⟩
  · exact absurd rfl h

/-- The destructor's next statement. -/
theorem destructor_cases (s : LoopPool) :
    (∃ i, s.destructor = .quit i ∧
      s.step .destructor = ⟨s.loops.modify i (·.clearRunning), .wakeup i⟩) ∨
    (∃ i, s.destructor = .wakeup i ∧
      s.step .destructor = ⟨s.loops.modify i (·.wakeup), .join i⟩) ∨
    (∃ i l, s.destructor = .join i ∧ s.loops[i]? = some l ∧ l.point = .returned ∧
      s.step .destructor = ⟨s.loops, destroy s.loops (i + 1)⟩) ∨
    (∃ i, s.destructor = .join i ∧ (∀ l, s.loops[i]? = some l → l.point ≠ .returned) ∧
      s.step .destructor = s) ∨
    s.destructor = .done ∧ s.step .destructor = s := by
  obtain ⟨loops, i | i | i | _⟩ := s
  case quit => exact Or.inl ⟨i, rfl, rfl⟩
  case wakeup => exact Or.inr (Or.inl ⟨i, rfl, rfl⟩)
  case join =>
    rw [step]
    dsimp only
    split
    · rename_i hReturned
      obtain ⟨l, hl, hPoint⟩ := Option.map_eq_some_iff.mp hReturned
      exact Or.inr (Or.inr (Or.inl ⟨i, l, rfl, hl, hPoint, rfl⟩))
    · rename_i hReturned
      refine Or.inr (Or.inr (Or.inr (Or.inl ⟨i, rfl, fun l hl hPoint => hReturned ?_, rfl⟩)))
      rw [hl, Option.map_some, hPoint]
  case done => exact Or.inr (Or.inr (Or.inr (Or.inr ⟨rfl, rfl⟩)))

theorem destroy_cases (loops : List EventLoop) (i : Nat) :
    (i < loops.length ∧ destroy loops i = .quit i) ∨
      loops.length ≤ i ∧ destroy loops i = .done := by
  rw [destroy]
  split
  · exact Or.inl ⟨‹_›, rfl⟩
  · exact Or.inr ⟨by omega, rfl⟩

theorem rank_lt_of_left {s s' : LoopPool} (h : s'.left < s.left) : s'.rank < s.rank := by
  have hPhase : s'.awaited.phase ≤ 3 := by
    rcases s'.awaited with _ | _ | _ | _ | _
    all_goals simp [LoopPoint.phase]
  exact Prod.Lex.toLex_lt_toLex.mpr (Or.inl (by dsimp only; omega))

theorem rank_lt_of_nearer {s s' : LoopPool} (hLeft : s'.left = s.left)
    (h : s'.awaited.Nearer s.awaited) : s'.rank < s.rank := by
  refine Prod.Lex.toLex_lt_toLex.mpr ?_
  dsimp only
  rw [hLeft]
  rcases h with hPhase | ⟨hPhase, hHandlers⟩
  · exact Or.inl (by omega)
  · exact Or.inr ⟨by rw [hPhase], hHandlers⟩

/-- **Each statement** of the destructor brings the destruction forward, unless it waits. -/
theorem advances_destructor (h : s.OnTheWay) (hInTime : s.InTime .destructor)
    (hNot : s.destructor ≠ .done) :
    Advances LoopEvent.party OnTheWay (fun s => s.destructor = .done) rank due s .destructor
      (s.step .destructor) := by
  obtain ⟨loops, destructor⟩ := s
  rcases destructor_cases ⟨loops, destructor⟩ with ⟨i, rfl, hStep⟩ | ⟨i, rfl, hStep⟩ |
    ⟨i, l, rfl, hl, hPoint, hStep⟩ | ⟨i, rfl, hWait, hStep⟩ | ⟨rfl, -⟩
  · -- it has begun, so the flag stays cleared
    have hi : i < loops.length := h
    have hl : loops[i]? = some loops[i] := List.getElem?_eq_getElem hi
    have hBegun : loops[i].point ≠ .begin := hInTime rfl i loops[i] rfl hl
    rw [hStep]
    refine Or.inr ⟨⟨loops[i].clearRunning, ?_, hBegun, rfl⟩, Or.inl (rank_lt_of_left ?_)⟩
    · rw [List.getElem?_modify_eq, hl]
      rfl
    · change 3 * ((loops.modify i (·.clearRunning)).length - i) - 1 < 3 * (loops.length - i)
      rw [List.length_modify]
      omega
  · obtain ⟨l, hl, hStopped⟩ : ∃ l, loops[i]? = some l ∧ l.Stopped := h
    have hi : i < loops.length := (List.getElem?_eq_some_iff.mp hl).1
    rw [hStep]
    refine Or.inr ⟨⟨l.wakeup, ?_, ⟨hStopped.begun, hStopped.cleared⟩,
      fun _ => EventLoop.wakeup_pos l⟩, Or.inl (rank_lt_of_left ?_)⟩
    · rw [List.getElem?_modify_eq, hl]
      rfl
    · change 3 * ((loops.modify i (·.wakeup)).length - i) - 2 < 3 * (loops.length - i) - 1
      rw [List.length_modify]
      omega
  · have hi : i < loops.length := (List.getElem?_eq_some_iff.mp hl).1
    rw [hStep]
    rcases destroy_cases loops (i + 1) with ⟨hNext, hDestroy⟩ | ⟨-, hDestroy⟩
    · rw [hDestroy]
      refine Or.inr ⟨hNext, Or.inl (rank_lt_of_left ?_)⟩
      change 3 * (loops.length - (i + 1)) < 3 * (loops.length - i) - 2
      omega
    · exact Or.inl hDestroy
  · have hJoin : ∃ l, loops[i]? = some l ∧ l.Woken := h
    obtain ⟨l, hl, -⟩ := hJoin
    have hDue : due ⟨loops, .join i⟩ = .loop i := by
      have hAwaited : awaited ⟨loops, .join i⟩ = l.point := by
        rw [awaited]
        dsimp only
        rw [hl]
      rw [due]
      dsimp only
      rw [hAwaited, if_neg (hWait l hl)]
    rw [hStep]
    exact Or.inr ⟨h, Or.inr ⟨rfl, rfl, by simp [hDue, LoopEvent.party]⟩⟩
  · exact absurd rfl hNot

/-- The other events do not set the destruction back. -/
theorem advances_other (h : s.OnTheWay) (hNot : s.destructor ≠ .done) (he : e ≠ .destructor) :
    Advances LoopEvent.party OnTheWay (fun s => s.destructor = .done) rank due s e
      (s.step e) := by
  obtain ⟨hDestructor, hLength, hLoops⟩ := step_other s he
  have hParty : e.party ≠ some .destructor := by
    rcases e with _ | _ | _ | _
    case destructor => exact absurd rfl he
    all_goals simp [LoopEvent.party]
  generalize s.step e = s' at hDestructor hLength hLoops
  obtain ⟨loops, destructor⟩ := s
  obtain ⟨loops', destructor'⟩ := s'
  dsimp only at hDestructor hLength hLoops hNot
  subst hDestructor
  rcases destructor' with i | i | i | _
  case quit =>
    have hi : i < loops.length := h
    have hRank : rank ⟨loops', .quit i⟩ = rank ⟨loops, .quit i⟩ := by
      rw [rank, rank, left, left]
      dsimp only
      rw [hLength]
      rfl
    have hi' : i < loops'.length := hLength.symm ▸ hi
    exact Or.inr ⟨hi', Or.inr ⟨hRank, rfl, hParty⟩⟩
  case wakeup =>
    obtain ⟨l, hl, hStopped⟩ : ∃ l, loops[i]? = some l ∧ l.Stopped := h
    have hRank : rank ⟨loops', .wakeup i⟩ = rank ⟨loops, .wakeup i⟩ := by
      rw [rank, rank, left, left]
      dsimp only
      rw [hLength]
      rfl
    refine Or.inr ⟨⟨l.after i e, ?_, hStopped.after i e⟩, Or.inr ⟨hRank, rfl, hParty⟩⟩
    rw [hLoops, hl]
    rfl
  case join =>
    obtain ⟨l, hl, hWoken⟩ : ∃ l, loops[i]? = some l ∧ l.Woken := h
    have hl' : loops'[i]? = some (l.after i e) := by
      rw [hLoops, hl]
      rfl
    have hLeft : left ⟨loops', .join i⟩ = left ⟨loops, .join i⟩ := by
      rw [left, left]
      dsimp only
      rw [hLength]
    have hAwaited : awaited ⟨loops, .join i⟩ = l.point := by
      rw [awaited]
      dsimp only
      rw [hl]
    have hAwaited' : awaited ⟨loops', .join i⟩ = (l.after i e).point := by
      rw [awaited]
      dsimp only
      rw [hl']
    obtain ⟨hWoken', hNearer | ⟨hSame, hTurn⟩⟩ := hWoken.after i e
    · refine Or.inr ⟨⟨_, hl', hWoken'⟩, Or.inl (rank_lt_of_nearer hLeft ?_)⟩
      rw [hAwaited, hAwaited']
      exact hNearer
    · have hEq : awaited ⟨loops', .join i⟩ = awaited ⟨loops, .join i⟩ := by
        rw [hAwaited, hAwaited', hSame]
      refine Or.inr ⟨⟨_, hl', hWoken'⟩, Or.inr ⟨?_, ?_, ?_⟩⟩
      · rw [rank, rank, hLeft, hEq]
      · rw [due, due, hEq]
      · -- the thread it waits for has nothing more to do, or it is not its turn
        rw [due, hAwaited]
        dsimp only
        split
        · exact hParty
        · rename_i hReturned
          exact fun hLoop => hReturned (hTurn hLoop)
  case done => exact absurd rfl hNot

theorem advances (h : s.OnTheWay) (hInTime : s.InTime e) (hNot : s.destructor ≠ .done) :
    Advances LoopEvent.party OnTheWay (fun s => s.destructor = .done) rank due s e
      (s.step e) := by
  by_cases he : e = .destructor
  · subst he
    exact advances_destructor h hInTime hNot
  · exact advances_other h hNot he

-- ---------------------------------------------------------------------------
-- Missed, and joined
-- ---------------------------------------------------------------------------

/-- A thread that has missed `quit` is never joined. -/
theorem missed_step (h : s.Missed i) (e : LoopEvent) : (s.step e).Missed i := by
  obtain ⟨hAt, l, hl, hMisses⟩ := h
  by_cases he : e = .destructor
  · subst he
    rcases destructor_cases s with ⟨k, hQuit, -⟩ | ⟨k, hWakeup, hStep⟩ |
      ⟨k, l', hJoin, hl', hPoint, -⟩ | ⟨k, -, -, hStep⟩ | ⟨hDone, -⟩
    · simp [hQuit] at hAt
    · obtain rfl : k = i := by simpa [hWakeup] using hAt
      rw [hStep]
      refine ⟨Or.inr rfl, l.wakeup, ?_, hMisses.running, hMisses.stays⟩
      dsimp only
      rw [List.getElem?_modify_eq, hl]
      rfl
    · obtain rfl : k = i := by simpa [hJoin] using hAt
      rw [hl, Option.some.injEq] at hl'
      exact absurd (hl' ▸ hPoint) hMisses.stays
    · rw [hStep]
      exact ⟨hAt, l, hl, hMisses⟩
    · simp [hDone] at hAt
  · obtain ⟨hDestructor, -, hLoops⟩ := step_other s he
    refine ⟨hDestructor ▸ hAt, l.after i e, ?_, hMisses.after i e⟩
    rw [hLoops, hl]
    rfl

/-- A `quit` that comes too soon is missed. -/
theorem missed_of_not_inTime (h : ¬ s.InTime e) : ∃ i, (s.step e).Missed i := by
  simp only [InTime, Classical.not_imp, not_forall, not_not] at h
  obtain ⟨rfl, i, l, hAt, hl, hPoint⟩ := h
  refine ⟨i, ?_⟩
  rw [step, hAt]
  refine ⟨Or.inl rfl, l.clearRunning, ?_, fun hBegun => absurd hPoint hBegun, ?_⟩
  · dsimp only
    rw [List.getElem?_modify_eq, hl]
    rfl
  · rw [EventLoop.clearRunning]
    dsimp only
    rw [hPoint]
    simp

/-- The threads that have been joined have returned. -/
def Joined (s : LoopPool) : Prop :=
  ∀ j l, j < s.joined → s.loops[j]? = some l → l.point = .returned

theorem point_of_modify {loops : List EventLoop} {f : EventLoop → EventLoop}
    (hf : ∀ l, (f l).point = l.point) {l : EventLoop} (hl : (loops.modify i f)[j]? = some l) :
    ∃ l', loops[j]? = some l' ∧ l.point = l'.point := by
  rw [List.getElem?_modify] at hl
  obtain ⟨l', hl', rfl⟩ := Option.map_eq_some_iff.mp hl
  refine ⟨l', hl', ?_⟩
  split
  · exact hf l'
  · rfl

theorem joined_step (h : s.Joined) (e : LoopEvent) : (s.step e).Joined := by
  intro j l hj hl
  by_cases he : e = .destructor
  · subst he
    obtain ⟨loops, destructor⟩ := s
    rcases destructor_cases ⟨loops, destructor⟩ with ⟨i, rfl, hStep⟩ | ⟨i, rfl, hStep⟩ |
      ⟨i, l', rfl, hl', hPoint, hStep⟩ | ⟨i, rfl, -, hStep⟩ | ⟨rfl, hStep⟩
    · rw [hStep] at hj hl
      obtain ⟨l', hl', hEq⟩ := point_of_modify (f := EventLoop.clearRunning) (fun _ => rfl) hl
      exact hEq.trans (h j l' hj hl')
    · rw [hStep] at hj hl
      obtain ⟨l', hl', hEq⟩ := point_of_modify (f := EventLoop.wakeup) (fun _ => rfl) hl
      exact hEq.trans (h j l' hj hl')
    · rw [hStep] at hj hl
      have hi : i < loops.length := (List.getElem?_eq_some_iff.mp hl').1
      have hLast : j ≤ i := by
        rcases destroy_cases loops (i + 1) with ⟨-, hDestroy⟩ | ⟨hEnd, hDestroy⟩
        · rw [hDestroy] at hj
          exact Nat.le_of_lt_succ hj
        · have hLt : j < loops.length := (List.getElem?_eq_some_iff.mp hl).1
          omega
      rcases Nat.lt_or_eq_of_le hLast with hLt | rfl
      · exact h j l hLt hl
      · have hEq : l' = l := Option.some.inj (hl'.symm.trans hl)
        exact hEq ▸ hPoint
    · rw [hStep] at hj hl
      exact h j l hj hl
    · rw [hStep] at hj hl
      exact h j l hj hl
  · obtain ⟨hDestructor, hLength, hLoops⟩ := step_other s he
    rw [hLoops] at hl
    obtain ⟨l', hl', rfl⟩ := Option.map_eq_some_iff.mp hl
    have hJoined : (s.step e).joined = s.joined := by
      rw [joined, joined, hDestructor, hLength]
    exact EventLoop.after_returned (h j l' (hJoined ▸ hj) hl') j e

end

-- ---------------------------------------------------------------------------
-- Every schedule
-- ---------------------------------------------------------------------------

section

variable {num : Nat} {es : Nat → LoopEvent} {s : LoopPool}

theorem length_step (s : LoopPool) (e : LoopEvent) : (s.step e).loops.length = s.loops.length := by
  rcases e with _ | _ | _ | _
  case destructor =>
    rcases destructor_cases s with ⟨i, -, hStep⟩ | ⟨i, -, hStep⟩ | ⟨i, l, -, -, -, hStep⟩ |
      ⟨i, -, -, hStep⟩ | ⟨-, hStep⟩
    · rw [hStep]
      exact List.length_modify _ _ _
    · rw [hStep]
      exact List.length_modify _ _ _
    · rw [hStep]
    · rw [hStep]
    · rw [hStep]
  all_goals exact List.length_modify _ _ _

theorem due_mem (h : s.OnTheWay) : s.due ∈ parties s.loops.length := by
  obtain ⟨loops, i | i | i | _⟩ := s
  case join =>
    obtain ⟨l, hl, -⟩ : ∃ l, loops[i]? = some l ∧ l.Woken := h
    have hi : i < loops.length := (List.getElem?_eq_some_iff.mp hl).1
    rw [due]
    dsimp only
    split
    · exact Or.inl rfl
    · exact Or.inr ⟨i, hi, rfl⟩
  all_goals exact Or.inl rfl

theorem init_onTheWay (num : Nat) : (init num).OnTheWay := by
  rcases destroy_cases (List.replicate num .new) 0 with ⟨hPos, hDestroy⟩ | ⟨-, hDestroy⟩
  · rw [init, hDestroy]
    exact hPos
  · rw [init, hDestroy]
    trivial

theorem init_joined (num : Nat) : (init num).Joined := by
  intro j l hj hl
  rcases destroy_cases (List.replicate num .new) 0 with ⟨-, hDestroy⟩ | ⟨hEnd, -⟩
  · rw [init, hDestroy] at hj
    exact absurd hj (Nat.not_lt_zero j)
  · have hLt : j < (List.replicate num EventLoop.new).length := (List.getElem?_eq_some_iff.mp hl).1
    omega

/-- The destructor returns if nobody is told to quit too soon. -/
theorem done_of_inTime (hFair : Fair LoopEvent.party (parties num) es)
    (h : ∀ k, (nth step (init num) es k).InTime (es k)) :
    ∃ k, (nth step (init num) es k).destructor = .done := by
  suffices hDone : ∃ k, 0 ≤ k ∧ (nth step (init num) es k).destructor = .done by
    obtain ⟨k, -, hk⟩ := hDone
    exact ⟨k, hk⟩
  refine eventually_of_rank (fun s : LoopPool => s.OnTheWay ∧ s.loops.length = num)
    (fun s => s.destructor = .done) rank due (fun s e hs hC hNot => ?_) (fun s hs _ => ?_) h hFair
    ⟨init_onTheWay num, List.length_replicate⟩
  · rcases advances hs.1 hC hNot with hGoal | ⟨hOn, hGain⟩
    · exact Or.inl hGoal
    · exact Or.inr ⟨⟨hOn, (length_step s e).trans hs.2⟩, hGain⟩
  · have hDue := due_mem hs.1
    rw [hs.2] at hDue
    exact hDue

/-- And it does not return otherwise. -/
theorem not_done_of_not_inTime {k : Nat} (h : ¬ (nth step (init num) es k).InTime (es k))
    (m : Nat) : (nth step (init num) es m).destructor ≠ .done := by
  intro hDone
  have hAbsorbs : ∀ s e, s.destructor = .done → (step s e).destructor = .done := by
    intro s e hs
    by_cases he : e = .destructor
    · rw [he, step, hs]
      exact hs
    · rw [(step_other s he).1, hs]
  obtain ⟨i, hMissed⟩ := missed_of_not_inTime h
  -- later than both
  have hLate : (nth step (init num) es (max (k + 1) m)).Missed i :=
    nth_of_step (Missed i) (fun _ e hs => missed_step hs e) (k := k + 1) hMissed (le_max_left _ _)
  have hLast : (nth step (init num) es (max (k + 1) m)).destructor = .done :=
    nth_of_step (fun s : LoopPool => s.destructor = .done) hAbsorbs hDone (le_max_right _ _)
  obtain ⟨hAt, -⟩ := hLate
  rw [hLast] at hAt
  simp at hAt

/-- **Destruction.** In any schedule in which the threads and the destructor come to their
turns, the destructor of a pool returns if and only if every loop has begun when it is told
to quit; and whenever it has returned, all loops have. -/
theorem destroyed_iff (hFair : Fair LoopEvent.party (parties num) es) :
    ((∃ k, (nth step (init num) es k).destructor = .done) ↔
      ∀ k, (nth step (init num) es k).InTime (es k)) ∧
    ∀ k, (nth step (init num) es k).destructor = .done →
      ∀ l ∈ (nth step (init num) es k).loops, l.point = .returned := by
  refine ⟨⟨fun ⟨m, hDone⟩ k => ?_, done_of_inTime hFair⟩, ?_⟩
  · by_contra hLate
    exact not_done_of_not_inTime hLate m hDone
  · intro k hDone l hl
    have hJoined : (nth step (init num) es k).Joined :=
      nth_of_step Joined (fun _ e hs => joined_step hs e) (k := 0) (init_joined num)
        (Nat.zero_le k)
    obtain ⟨j, hj, hEq⟩ := List.getElem_of_mem hl
    refine hJoined j l ?_ (List.getElem?_eq_some_iff.mpr ⟨hj, hEq⟩)
    rw [joined, hDone]
    exact hj

/-- One thread, which begins before the destructor does; they take turns. -/
def alternate (k : Nat) : LoopEvent := if k % 2 = 0 then .loop 0 [] else .destructor

theorem destroyed_iff_alternate :
    (nth step (init 1) alternate 10).destructor = .done ∧
      ∀ k, (nth step (init 1) alternate k).InTime (alternate k) := by
  have hDone : (nth step (init 1) alternate 10).destructor = .done := by decide
  refine ⟨hDone, (destroyed_iff fun p hp k => ?_).1.mp ⟨10, hDone⟩⟩
  rcases hp with rfl | ⟨i, hi, rfl⟩
  · refine ⟨2 * k + 1, by omega, ?_⟩
    rw [alternate, if_neg (by omega)]
    rfl
  · refine ⟨2 * k, by omega, ?_⟩
    rw [alternate, if_pos (by omega), Nat.lt_one_iff.mp hi]
    rfl

/-- A thread that is destroyed at once. -/
example : (final step (init 1) [.destructor, .destructor, .loop 0 [], .loop 0 [], .destructor,
    .loop 0 [], .loop 0 [], .loop 0 [], .loop 0 [], .destructor]) =
      ⟨[⟨.poll, true, 0⟩], .join 0⟩ := by
  decide

end

end LoopPool

end WarringServer.Net
