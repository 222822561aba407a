import WarringServer.Lib.Run

/-!
# Monitors

Data behind one mutex, and one condition variable for it. A call locks the mutex, waits until
it is ready, runs its critical section and returns; some critical sections end with
`notify_one`. A thread that waits releases the mutex and is in the wait set until it is
notified; then it has to lock the mutex again and to test again. It may wake up without having
been notified, and a timed call gives up when its time has passed and it is still not ready.

Whoever holds the mutex is not interrupted by another call, so a call is one step up to the
point where it returns or waits, and so is each of its later tests.

* `replay_log` — a run is as good as the calls that have returned, one after another, in the
  order of the log (the data, and what each of them returned);
* `Supplied` — a thread is in the wait set only as long as the threads that are about to test
  are enough for what is there;
* `supplied_of_counts` — it holds throughout a run if a notified critical section supplies
  one item at most and a call that has waited takes one at least;
* `settled_of_counts` — so once every awake thread has tested again, nobody waits in vain.
-/

namespace Monitor

open Run

variable {σ ω ρ ι : Type*}

/-- The calls of a monitor. One that need not wait is always ready. -/
structure Calls (σ ω ρ : Type*) where
  ready : ω → σ → Bool
  /-- The critical section. -/
  act : ω → σ → σ
  result : ω → σ → ρ
  /-- The critical section ends with `notify_one`. -/
  notifies : ω → Bool
  /-- The call waits for a limited time. -/
  timed : ω → Bool

/-- A call that has not returned yet. -/
structure Pending (ι ω : Type*) where
  thread : ι
  call : ω
  /-- Its time has passed. -/
  timedOut : Bool
  deriving DecidableEq, Repr

/-- A call that has returned; `none` if it has given up. -/
structure Entry (ι ω ρ : Type*) where
  thread : ι
  call : ω
  result : Option ρ
  deriving DecidableEq, Repr

structure State (σ ω ρ ι : Type*) where
  data : σ
  /-- The wait set. -/
  waiting : List (Pending ι ω)
  /-- The threads that have left it and have to test again. -/
  awake : List (Pending ι ω)
  log : List (Entry ι ω ρ)
  deriving DecidableEq, Repr

inductive Event (ω ι : Type*) where
  /-- A thread makes a call. `chosen` is the thread a `notify_one` would wake. -/
  | call (thread : ι) (call : ω) (chosen : Nat)
  /-- A thread of the wait set wakes up by itself, or because its time has passed. -/
  | wake (i : Nat) (timedOut : Bool)
  /-- An awake thread has the mutex again, and tests. -/
  | test (i : Nat) (chosen : Nat)
  deriving DecidableEq, Repr

namespace State

def init (data : σ) : State σ ω ρ ι := ⟨data, [], [], []⟩

/-- One of the wait set is awake, if there is one. -/
def notifyOne (s : State σ ω ρ ι) (chosen : Nat) : State σ ω ρ ι :=
  match s.waiting[chosen % s.waiting.length]? with
  | some p =>
    { s with
      waiting := s.waiting.eraseIdx (chosen % s.waiting.length)
      awake := s.awake ++ [p] }
  | none => s

/-- The critical section of a call that is ready. -/
def enter (c : Calls σ ω ρ) (s : State σ ω ρ ι) (thread : ι) (call : ω) (chosen : Nat) :
    State σ ω ρ ι :=
  let s' : State σ ω ρ ι :=
    { s with
      data := c.act call s.data
      log := s.log ++ [⟨thread, call, some (c.result call s.data)⟩] }
  if c.notifies call then s'.notifyOne chosen else s'

/-- An event of a thread that is not there changes nothing. -/
def step (c : Calls σ ω ρ) (s : State σ ω ρ ι) : Event ω ι → State σ ω ρ ι
  | .call thread call chosen =>
    if c.ready call s.data then s.enter c thread call chosen
    else { s with waiting := s.waiting ++ [⟨thread, call, false⟩] }
  | .wake i timedOut =>
    match s.waiting[i]? with
    | none => s
    | some p =>
      { s with
        waiting := s.waiting.eraseIdx i
        awake := s.awake ++ [{ p with timedOut := timedOut }] }
  | .test i chosen =>
    match s.awake[i]? with
    | none => s
    | some p =>
      let s := { s with awake := s.awake.eraseIdx i }
      if c.ready p.call s.data then s.enter c p.thread p.call chosen
      else if p.timedOut && c.timed p.call then { s with log := s.log ++ [⟨p.thread, p.call, none⟩] }
      else { s with waiting := s.waiting ++ [p] }

/-- Every thread that is awake tests, the first one first. -/
def settle (c : Calls σ ω ρ) (s : State σ ω ρ ι) : State σ ω ρ ι :=
  final (step c) s (List.replicate s.awake.length (.test 0 0))

end State

/-- The calls of the log one after another: the data in the end, and that each of them was
ready and has returned what the log says, or is a timed one that was not ready. -/
def Replays (c : Calls σ ω ρ) : σ → List (Entry ι ω ρ) → σ → Prop
  | data, [], data' => data' = data
  | data, e :: log, data' =>
    match e.result with
    | none => c.ready e.call data = false ∧ c.timed e.call = true ∧ Replays c data log data'
    | some r =>
      c.ready e.call data = true ∧ r = c.result e.call data ∧ Replays c (c.act e.call data) log data'

-- ---------------------------------------------------------------------------
-- One step
-- ---------------------------------------------------------------------------

section

variable {c : Calls σ ω ρ} {s : State σ ω ρ ι} {chosen : Nat}

@[simp] theorem notifyOne_data : (s.notifyOne chosen).data = s.data := by
  unfold State.notifyOne
  split <;> rfl

@[simp] theorem notifyOne_log : (s.notifyOne chosen).log = s.log := by
  unfold State.notifyOne
  split <;> rfl

@[simp] theorem notifyOne_nil (h : s.waiting = []) : s.notifyOne chosen = s := by
  rw [State.notifyOne, h]
  rfl

/-- **A notification** moves one thread, if one waits. -/
theorem notifyOne_cons (chosen : Nat) (h : s.waiting ≠ []) :
    ∃ p ∈ s.waiting, (∀ q ∈ (s.notifyOne chosen).waiting, q ∈ s.waiting) ∧
      (s.notifyOne chosen).awake = s.awake ++ [p] := by
  have hPos : 0 < s.waiting.length := List.length_pos_iff.mpr h
  have hLt : chosen % s.waiting.length < s.waiting.length := Nat.mod_lt _ hPos
  refine ⟨s.waiting[chosen % s.waiting.length], List.getElem_mem hLt, ?_, ?_⟩
  · intro q hq
    rw [State.notifyOne, List.getElem?_eq_getElem hLt] at hq
    exact List.mem_of_mem_eraseIdx hq
  · rw [State.notifyOne, List.getElem?_eq_getElem hLt]

/-- A critical section, apart from the notification. -/
theorem enter_eq (c : Calls σ ω ρ) (s : State σ ω ρ ι) (thread : ι) (call : ω) (chosen : Nat) :
    (s.enter c thread call chosen).data = c.act call s.data ∧
      (s.enter c thread call chosen).log =
        s.log ++ [⟨thread, call, some (c.result call s.data)⟩] := by
  unfold State.enter
  dsimp only
  split
  · exact ⟨notifyOne_data, notifyOne_log⟩
  · exact ⟨rfl, rfl⟩

theorem enter_silent (thread : ι) (chosen : Nat) {call : ω} (h : c.notifies call = false) :
    (s.enter c thread call chosen).waiting = s.waiting ∧
      (s.enter c thread call chosen).awake = s.awake := by
  unfold State.enter
  rw [if_neg (by simp [h])]
  exact ⟨rfl, rfl⟩

end

-- ---------------------------------------------------------------------------
-- The calls one after another
-- ---------------------------------------------------------------------------

section

variable {c : Calls σ ω ρ} {s : State σ ω ρ ι} {data data' : σ} {log : List (Entry ι ω ρ)}

theorem Replays.returned (h : Replays c data log data') {thread : ι} {call : ω}
    (hReady : c.ready call data' = true) :
    Replays c data (log ++ [⟨thread, call, some (c.result call data')⟩]) (c.act call data') := by
  induction log generalizing data with
  | nil =>
    obtain rfl : data' = data := h
    exact ⟨hReady, rfl, rfl⟩
  | cons e log ih =>
    rw [List.cons_append]
    unfold Replays at h ⊢
    split
    · rename_i hResult
      rw [hResult] at h
      exact ⟨h.1, h.2.1, ih h.2.2⟩
    · rename_i r hResult
      rw [hResult] at h
      exact ⟨h.1, h.2.1, ih h.2.2⟩

theorem Replays.gaveUp (h : Replays c data log data') {thread : ι} {call : ω}
    (hReady : c.ready call data' = false) (hTimed : c.timed call = true) :
    Replays c data (log ++ [⟨thread, call, none⟩]) data' := by
  induction log generalizing data with
  | nil =>
    obtain rfl : data' = data := h
    exact ⟨hReady, hTimed, rfl⟩
  | cons e log ih =>
    rw [List.cons_append]
    unfold Replays at h ⊢
    split
    · rename_i hResult
      rw [hResult] at h
      exact ⟨h.1, h.2.1, ih h.2.2⟩
    · rename_i r hResult
      rw [hResult] at h
      exact ⟨h.1, h.2.1, ih h.2.2⟩

theorem Replays.enter (h : Replays c data s.log s.data) {call : ω}
    (hReady : c.ready call s.data = true) (thread : ι) (chosen : Nat) :
    Replays c data (s.enter c thread call chosen).log (s.enter c thread call chosen).data := by
  obtain ⟨hData, hLog⟩ := enter_eq c s thread call chosen
  rw [hData, hLog]
  exact h.returned hReady

theorem Replays.step (h : Replays c data s.log s.data) (e : Event ω ι) :
    Replays c data (s.step c e).log (s.step c e).data := by
  rcases e with ⟨thread, call, chosen⟩ | ⟨i, timedOut⟩ | ⟨i, chosen⟩
  · rw [State.step]
    split
    · exact h.enter ‹_› thread chosen
    · exact h
  · rw [State.step]
    split
    · exact h
    · exact h
  · rw [State.step]
    split
    · exact h
    · rename_i p _
      dsimp only
      split
      · rename_i hReady
        exact Replays.enter (s := { s with awake := s.awake.eraseIdx i }) h hReady p.thread chosen
      · rename_i hReady
        split
        · rename_i hTimed
          rw [Bool.and_eq_true] at hTimed
          exact h.gaveUp (by simpa using hReady) hTimed.2
        · exact h

/-- What a logged call met. -/
theorem Replays.mem (h : Replays c data log data') {e : Entry ι ω ρ} (he : e ∈ log) :
    (e.result = none ∧ c.timed e.call = true) ∨
      ∃ d, c.ready e.call d = true ∧ e.result = some (c.result e.call d) := by
  induction log generalizing data with
  | nil => exact absurd he List.not_mem_nil
  | cons e' log ih =>
    unfold Replays at h
    split at h
    · rename_i hResult
      rcases List.mem_cons.mp he with rfl | he
      · exact Or.inl ⟨hResult, h.2.1⟩
      · exact ih h.2.2 he
    · rename_i r hResult
      rcases List.mem_cons.mp he with rfl | he
      · exact Or.inr ⟨data, h.1, hResult.trans (congrArg some h.2.1)⟩
      · exact ih h.2.2 he

/-- **Runs are sequential.** The data of a run and what its calls have returned are those of
the logged calls, made one after another. -/
theorem replay_log (c : Calls σ ω ρ) (data : σ) (events : List (Event ω ι)) :
    let s : State σ ω ρ ι := final (State.step c) (State.init data) events
    Replays c data s.log s.data :=
  final_of_step (P := fun s : State σ ω ρ ι => Replays c data s.log s.data)
    (fun _ e h => h.step e) rfl

end

-- ---------------------------------------------------------------------------
-- Nobody waits in vain
-- ---------------------------------------------------------------------------

/-- A call that need not wait. If it may supply an item, one at most, it notifies. -/
structure Passing (c : Calls σ ω ρ) (avail : σ → Nat) (call : ω) : Prop where
  ready : ∀ data, c.ready call data = true
  supplies : ∀ data, avail (c.act call data) ≤ avail data + if c.notifies call then 1 else 0

/-- A call that waits for an item, and takes one at least. -/
structure Taking (c : Calls σ ω ρ) (avail : σ → Nat) (call : ω) : Prop where
  ready : ∀ data, c.ready call data = true ↔ 0 < avail data
  takes : ∀ data, 0 < avail data → avail (c.act call data) < avail data
  silent : c.notifies call = false

/-- The calls of an event. -/
def Event.Makes (P : ω → Prop) : Event ω ι → Prop
  | .call _ made _ => P made
  | .wake _ _ | .test _ _ => True

/-- Whoever waits can wait for more than the awake threads find. -/
def Supplied (avail : σ → Nat) (s : State σ ω ρ ι) : Prop :=
  s.waiting ≠ [] → avail s.data ≤ s.awake.length

structure Counted (c : Calls σ ω ρ) (avail : σ → Nat) (s : State σ ω ρ ι) : Prop where
  waiting : ∀ p ∈ s.waiting, Taking c avail p.call
  awake : ∀ p ∈ s.awake, Taking c avail p.call
  supplied : Supplied avail s

section

variable {c : Calls σ ω ρ} {avail : σ → Nat} {s : State σ ω ρ ι}

theorem Counted.init (c : Calls σ ω ρ) (avail : σ → Nat) (data : σ) :
    Counted c avail (State.init data : State σ ω ρ ι) where
  waiting _ h := absurd h List.not_mem_nil
  awake _ h := absurd h List.not_mem_nil
  supplied h := absurd rfl h

theorem Counted.wait (h : Counted c avail s) {p : Pending ι ω} (hTaking : Taking c avail p.call)
    (hReady : c.ready p.call s.data ≠ true) :
    Counted c avail { s with waiting := s.waiting ++ [p] } where
  waiting q hq := by
    rcases List.mem_append.mp hq with hq | hq
    · exact h.waiting q hq
    · rw [List.mem_singleton.mp hq]
      exact hTaking
  awake := h.awake
  supplied _ := by
    -- there is nothing, or the call would be ready
    have hNone : ¬ 0 < avail s.data := fun hPos => hReady ((hTaking.ready _).mpr hPos)
    change avail s.data ≤ s.awake.length
    omega

theorem Counted.pass (h : Counted c avail s) {call : ω} (hPassing : Passing c avail call)
    (thread : ι) (chosen : Nat) : Counted c avail (s.enter c thread call chosen) := by
  have hSupplies := hPassing.supplies s.data
  unfold State.enter
  dsimp only
  split
  · rename_i hNotifies
    rw [if_pos hNotifies] at hSupplies
    by_cases hWaiting : s.waiting = []
    · rw [notifyOne_nil (by exact hWaiting)]
      exact ⟨h.waiting, h.awake, fun hNe => absurd hWaiting hNe⟩
    · -- one item more, and one thread more that tests
      obtain ⟨p, hp, hSub, hAwake⟩ := notifyOne_cons (s := { s with
        data := c.act call s.data
        log := s.log ++ [⟨thread, call, some (c.result call s.data)⟩] }) chosen hWaiting
      refine ⟨fun q hq => h.waiting q (hSub q hq), ?_, ?_⟩
      · intro q hq
        rw [hAwake] at hq
        rcases List.mem_append.mp hq with hq | hq
        · exact h.awake q hq
        · rw [List.mem_singleton.mp hq]
          exact h.waiting p hp
      · intro _
        have hOld := h.supplied hWaiting
        rw [hAwake, notifyOne_data, List.length_append, List.length_singleton]
        dsimp only
        omega
  · rename_i hNotifies
    rw [if_neg hNotifies] at hSupplies
    refine ⟨h.waiting, h.awake, fun hWaiting => ?_⟩
    have hOld := h.supplied hWaiting
    dsimp only
    omega

/-- An awake thread takes what it finds. -/
theorem Counted.take (h : Counted c avail s) {i : Nat} {p : Pending ι ω}
    (hp : s.awake[i]? = some p) (hReady : c.ready p.call s.data = true) (chosen : Nat) :
    Counted c avail
      ({ s with awake := s.awake.eraseIdx i }.enter c p.thread p.call chosen) := by
  have hTaking := h.awake p (List.mem_of_getElem? hp)
  obtain ⟨hWaiting, hAwake⟩ := enter_silent (s := { s with awake := s.awake.eraseIdx i })
    p.thread chosen hTaking.silent
  obtain ⟨hData, -⟩ := enter_eq c { s with awake := s.awake.eraseIdx i } p.thread p.call chosen
  refine ⟨?_, ?_, ?_⟩
  · intro q hq
    exact h.waiting q (hWaiting ▸ hq)
  · intro q hq
    rw [hAwake] at hq
    exact h.awake q (List.mem_of_mem_eraseIdx hq)
  · intro hNe
    rw [hWaiting] at hNe
    have hOld := h.supplied hNe
    have hTakes := hTaking.takes s.data ((hTaking.ready _).mp hReady)
    have hLt : i < s.awake.length := (List.getElem?_eq_some_iff.mp hp).1
    rw [hData, hAwake]
    dsimp only at hOld ⊢
    rw [List.length_eraseIdx_of_lt hLt]
    omega

/-- A thread that finds nothing gives up or goes back; then there is nothing for anybody. -/
theorem Counted.leave (h : Counted c avail s) {i : Nat} {p : Pending ι ω}
    (hp : s.awake[i]? = some p) (hReady : c.ready p.call s.data ≠ true) :
    avail s.data = 0 ∧ Counted c avail { s with awake := s.awake.eraseIdx i } := by
  have hTaking := h.awake p (List.mem_of_getElem? hp)
  have hNone : ¬ 0 < avail s.data := fun hPos => hReady ((hTaking.ready _).mpr hPos)
  refine ⟨by omega, h.waiting, fun q hq => h.awake q (List.mem_of_mem_eraseIdx hq), fun _ => ?_⟩
  dsimp only
  omega

theorem Counted.step (h : Counted c avail s) {e : Event ω ι}
    (hCalls : e.Makes fun call => Passing c avail call ∨ Taking c avail call) :
    Counted c avail (s.step c e) := by
  rcases e with ⟨thread, call, chosen⟩ | ⟨i, timedOut⟩ | ⟨i, chosen⟩
  · rw [State.step]
    rcases hCalls with hPassing | hTaking
    · rw [if_pos (hPassing.ready s.data)]
      exact h.pass hPassing thread chosen
    · split
      · rename_i hReady
        obtain ⟨hWaiting, hAwake⟩ := enter_silent (s := s) thread chosen hTaking.silent
        obtain ⟨hData, -⟩ := enter_eq c s thread call chosen
        refine ⟨by rw [hWaiting]; exact h.waiting, by rw [hAwake]; exact h.awake, fun hNe => ?_⟩
        rw [hWaiting] at hNe
        have hOld := h.supplied hNe
        have hTakes := hTaking.takes s.data ((hTaking.ready _).mp hReady)
        rw [hData, hAwake]
        omega
      · rename_i hReady
        exact h.wait (p := ⟨thread, call, false⟩) hTaking hReady
  · rw [State.step]
    split
    · exact h
    · rename_i p hp
      have hMem := List.mem_of_getElem? hp
      refine ⟨fun q hq => h.waiting q (List.mem_of_mem_eraseIdx hq), ?_, ?_⟩
      · intro q hq
        rcases List.mem_append.mp hq with hq | hq
        · exact h.awake q hq
        · rw [List.mem_singleton.mp hq]
          exact h.waiting p hMem
      · intro hNe
        have hOld := h.supplied (List.ne_nil_of_mem hMem)
        dsimp only
        rw [List.length_append]
        omega
  · rw [State.step]
    split
    · exact h
    · rename_i p hp
      dsimp only
      split
      · exact h.take hp ‹_› chosen
      · rename_i hReady
        obtain ⟨-, hLeft⟩ := h.leave hp hReady
        split
        · exact ⟨hLeft.waiting, hLeft.awake, hLeft.supplied⟩
        · exact hLeft.wait (h.awake p (List.mem_of_getElem? hp)) hReady

/-- **No lost wakeup**: throughout a run, the awake threads are enough for what is there. -/
theorem supplied_of_counts {data : σ} {events : List (Event ω ι)}
    (h : ∀ e ∈ events, e.Makes fun call => Passing c avail call ∨ Taking c avail call) :
    Always (State.step c) (Counted c avail) (State.init data) events :=
  always_of_each (fun _ _ => True) (fun _ _ _ _ _ _ => trivial)
    (fun _ _ _ _ hCounted hCalls => hCounted.step hCalls) (Counted.init c avail data) trivial
    (each_of_forall h)

/-- A test makes one thread less awake. -/
theorem Counted.step_test (h : Counted c avail s) (hAwake : s.awake ≠ []) :
    (s.step c (.test 0 0)).awake.length + 1 = s.awake.length := by
  obtain ⟨p, awake, hEq⟩ := List.exists_cons_of_ne_nil hAwake
  have hTaking := h.awake p (by simp [hEq])
  rw [State.step, hEq]
  dsimp only [List.getElem?_cons_zero]
  split
  · rw [(enter_silent p.thread 0 hTaking.silent).2]
    rfl
  · split
    · rfl
    · rfl

/-- **Settled.** When every awake thread has tested again, whoever waits has nothing to wait
for. -/
theorem settled_of_counts (h : Counted c avail s) :
    (s.settle c).awake = [] ∧ ((s.settle c).waiting = [] ∨ avail (s.settle c).data = 0) := by
  suffices hSettle : ∀ n (s : State σ ω ρ ι), Counted c avail s → s.awake.length = n →
      Counted c avail (final (State.step c) s (List.replicate n (.test 0 0))) ∧
        (final (State.step c) s (List.replicate n (.test 0 0))).awake = [] by
    obtain ⟨hCounted, hAwake⟩ := hSettle _ s h rfl
    refine ⟨hAwake, ?_⟩
    by_cases hWaiting : (s.settle c).waiting = []
    · exact Or.inl hWaiting
    · have hSupplied := hCounted.supplied hWaiting
      rw [hAwake] at hSupplied
      exact Or.inr (Nat.le_zero.mp hSupplied)
  intro n
  induction n with
  | zero =>
    intro s h hLength
    exact ⟨h, List.eq_nil_of_length_eq_zero hLength⟩
  | succ n ih =>
    intro s h hLength
    have hStep := h.step_test (List.ne_nil_of_length_pos (by omega))
    rw [List.replicate_succ, final_cons]
    exact ih _ (h.step trivial) (by omega)

end

end Monitor
