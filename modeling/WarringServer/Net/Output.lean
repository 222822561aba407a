import WarringServer.Net.TcpConnection
import WarringServer.Lib.Run

/-!
# Output of a connection — order and conservation

Runs of `send`, `putToBuffer` and `writeFunc` on one connection, next to the
bytes the kernel has accepted and those that were submitted. Meant as a FIFO
byte channel: accepted bytes followed by queued bytes should at any time be the
submitted ones.

All three entry points go through the same attempt: a string is popped from the
queue, or is the submitted data itself when the queue is empty; it is handed to
`::write`; what the kernel leaves of it goes to the *back* of the queue. The
attempt of an event is `OutputEvent.attempt`, and `outputStep_spec` says in one
place what an event does to the three byte strings.

Main results:

* `output_in_order_iff` — the channel is FIFO exactly as long as no unwritten
  rest is put back behind strings that were queued after it;
* `output_conserved_iff` — no byte is lost exactly as long as no failing write
  was handed any bytes;
* `output_watched` — whatever is queued has a write event to wait for.
-/

namespace WarringServer.Net

open Run

-- ---------------------------------------------------------------------------
-- Events and runs
-- ---------------------------------------------------------------------------

/-- An event on the output side of a connection, with the state of the socket
where the event writes to it. -/
inductive OutputEvent where
  | send (k : SocketWrite) (msg : Bytes)
  | putToBuffer (msg : Bytes)
  | writable (k : SocketWrite)
deriving Repr, DecidableEq

/-- A connection with the bytes its kernel socket has accepted and the bytes
submitted to it so far. -/
structure OutputRun where
  conn : TcpConnection
  accepted : Bytes
  submitted : Bytes
deriving Repr, DecidableEq

namespace OutputRun

def start : OutputRun := ⟨TcpConnection.create, [], []⟩

/-- The bytes held in the connection's output queue. -/
def held (s : OutputRun) : Bytes := s.conn.mOutputBuffer.queued

/-- Accepted bytes followed by queued bytes are the submitted bytes. -/
def InOrder (s : OutputRun) : Prop := s.accepted ++ s.held = s.submitted

/-- As many bytes are accepted or held as were submitted. -/
def Conserved (s : OutputRun) : Prop :=
  s.accepted.length + s.held.length = s.submitted.length

instance (s : OutputRun) : Decidable s.InOrder := inferInstanceAs (Decidable (_ = _))

instance (s : OutputRun) : Decidable s.Conserved := inferInstanceAs (Decidable (_ = _))

end OutputRun

def outputStep (s : OutputRun) : OutputEvent → OutputRun
  | .send k msg =>
    let (taken, c) := s.conn.send k msg
    ⟨c, s.accepted ++ taken, s.submitted ++ msg⟩
  | .putToBuffer msg => ⟨s.conn.putToBuffer msg, s.accepted, s.submitted ++ msg⟩
  | .writable k =>
    let (taken, c) := s.conn.writeFunc k
    ⟨c, s.accepted ++ taken, s.submitted⟩

-- ---------------------------------------------------------------------------
-- The write an event attempts
-- ---------------------------------------------------------------------------

/-- What the kernel leaves of a string that is then queued again: the part it did
not take, but nothing when the write failed. -/
def SocketWrite.requeued : SocketWrite → Bytes → Bytes
  | .room n, buf => buf.drop n
  | .wouldBlock, _ => []

/-- A `::write`: the socket, the string handed to it, the strings that stay
queued behind it. -/
structure Attempt where
  socket : SocketWrite
  given : Bytes
  behind : List Bytes
deriving Repr, DecidableEq

/-- The write an event performs when `queue` is the output queue before it. -/
def OutputEvent.attempt : OutputEvent → List Bytes → Option Attempt
  | .send k msg, [] => some ⟨k, msg, []⟩
  | .send k _, oldest :: rest => some ⟨k, oldest, rest⟩
  | .putToBuffer _, _ => none
  | .writable _, [] => none
  | .writable k, oldest :: rest => some ⟨k, oldest, rest⟩

/-- The bytes an event submits. -/
def OutputEvent.submits : OutputEvent → Bytes
  | .send _ msg => msg
  | .putToBuffer msg => msg
  | .writable _ => []

/-- The state of the socket at an event that writes to it. -/
def OutputEvent.socket? : OutputEvent → Option SocketWrite
  | .send k _ => some k
  | .putToBuffer _ => none
  | .writable k => some k

/-- The attempt of an event in the state it is taken from. -/
def OutputRun.attempt (s : OutputRun) (e : OutputEvent) : Option Attempt :=
  e.attempt s.conn.mOutputBuffer.mDataQueue

/-- What one event does to the accepted, held and submitted bytes. -/
structure StepEffect (s s' : OutputRun) (e : OutputEvent) : Prop where
  submitted : s'.submitted = s.submitted ++ e.submits
  quiet : s.attempt e = none → s'.accepted = s.accepted ∧ s'.held = s.held ++ e.submits
  wrote : ∀ a, s.attempt e = some a → ∃ late : Bytes,
    s.held ++ e.submits = a.given ++ a.behind.flatten ++ late ∧
    s'.accepted = s.accepted ++ a.socket.accepted a.given ∧
    s'.held = a.behind.flatten ++ a.socket.requeued a.given ++ late

theorem write_held (b : IOBuffer) (k : SocketWrite) (buf : Bytes) :
    (b.write k buf).2.queued = b.queued ++ k.requeued buf := by
  rw [IOBuffer.write_queued]
  cases k with
  | room n => rfl
  | wouldBlock => exact (List.append_nil _).symm

theorem held_nil {s : OutputRun} (hq : s.conn.mOutputBuffer.mDataQueue = []) : s.held = [] := by
  rw [OutputRun.held, IOBuffer.queued, hq]
  rfl

theorem held_cons {s : OutputRun} {oldest : Bytes} {rest : List Bytes}
    (hq : s.conn.mOutputBuffer.mDataQueue = oldest :: rest) : s.held = oldest ++ rest.flatten := by
  rw [OutputRun.held, IOBuffer.queued, hq, List.flatten_cons]

/-- `send` writes the data itself if nothing is queued, and otherwise the oldest string. -/
theorem send_effect (s : OutputRun) (k : SocketWrite) (msg : Bytes) :
    StepEffect s (outputStep s (.send k msg)) (.send k msg) := by
  rcases hq : s.conn.mOutputBuffer.mDataQueue with _ | ⟨oldest, rest⟩
  · have hGet := IOBuffer.get_nil hq
    have hHeld := held_nil hq
    refine ⟨rfl, ?_, ?_⟩
    · intro hNone
      simp [OutputRun.attempt, OutputEvent.attempt, hq] at hNone
    · intro a ha
      simp only [OutputRun.attempt, OutputEvent.attempt, hq, Option.some.injEq] at ha
      subst ha
      refine ⟨[], by simp [hHeld, OutputEvent.submits], ?_, ?_⟩
      · simp only [outputStep, TcpConnection.send, hGet]
      · have hOut : (outputStep s (.send k msg)).held =
            -- asking for write events does not change what is held
            (s.conn.mOutputBuffer.write k msg).2.queued := by
          simp only [outputStep, TcpConnection.send, hGet, OutputRun.held]
          split <;> rfl
        rw [hOut, write_held]
        have hQueued : s.conn.mOutputBuffer.queued = [] := hHeld
        simp [hQueued]
  · have hGet := IOBuffer.get_cons hq
    have hHeld := held_cons hq
    refine ⟨rfl, ?_, ?_⟩
    · intro hNone
      simp [OutputRun.attempt, OutputEvent.attempt, hq] at hNone
    · intro a ha
      simp only [OutputRun.attempt, OutputEvent.attempt, hq, Option.some.injEq] at ha
      subst ha
      -- the new data goes behind the rest that was put back
      refine ⟨msg, by rw [hHeld]; rfl, ?_, ?_⟩
      · simp only [outputStep, TcpConnection.send, hGet]
      · have hOut : (outputStep s (.send k msg)).held =
            (({ s.conn.mOutputBuffer with mDataQueue := rest }.write k oldest).2.put
              msg).queued := by
          simp only [outputStep, TcpConnection.send, hGet, OutputRun.held]
          rfl
        rw [hOut, IOBuffer.put_queued, write_held]
        rfl

theorem putToBuffer_effect (s : OutputRun) (msg : Bytes) :
    StepEffect s (outputStep s (.putToBuffer msg)) (.putToBuffer msg) := by
  refine ⟨rfl, fun _ => ⟨rfl, ?_⟩, ?_⟩
  · exact IOBuffer.put_queued ..
  · intro a ha
    simp [OutputRun.attempt, OutputEvent.attempt] at ha

/-- `writeFunc` writes the oldest string, if there is one. -/
theorem writeFunc_effect (s : OutputRun) (k : SocketWrite) :
    StepEffect s (outputStep s (.writable k)) (.writable k) := by
  rcases hq : s.conn.mOutputBuffer.mDataQueue with _ | ⟨oldest, rest⟩
  · have hGet := IOBuffer.get_nil hq
    refine ⟨by simp [outputStep, OutputEvent.submits], ?_, ?_⟩
    · intro _
      simp only [outputStep, TcpConnection.writeFunc, hGet, OutputEvent.submits,
        List.append_nil, true_and]
      rfl
    · intro a ha
      simp [OutputRun.attempt, OutputEvent.attempt, hq] at ha
  · have hGet := IOBuffer.get_cons hq
    have hHeld := held_cons hq
    refine ⟨by simp [outputStep, OutputEvent.submits], ?_, ?_⟩
    · intro hNone
      simp [OutputRun.attempt, OutputEvent.attempt, hq] at hNone
    · intro a ha
      simp only [OutputRun.attempt, OutputEvent.attempt, hq, Option.some.injEq] at ha
      subst ha
      refine ⟨[], by simp [hHeld, OutputEvent.submits], ?_, ?_⟩
      · simp only [outputStep, TcpConnection.writeFunc, hGet]
      · have hOut : (outputStep s (.writable k)).held =
            ({ s.conn.mOutputBuffer with mDataQueue := rest }.write k oldest).2.queued := by
          simp only [outputStep, TcpConnection.writeFunc, hGet, OutputRun.held]
        rw [hOut, write_held, List.append_nil]
        rfl

/-- **One step of the output side.** -/
theorem outputStep_spec (s : OutputRun) (e : OutputEvent) :
    StepEffect s (outputStep s e) e := by
  cases e with
  | send k msg => exact send_effect s k msg
  | putToBuffer msg => exact putToBuffer_effect s msg
  | writable k => exact writeFunc_effect s k

-- ---------------------------------------------------------------------------
-- Order
-- ---------------------------------------------------------------------------

/-- The unwritten rest of a string reads the same before and after the strings
queued behind it: nothing is left of it, nothing is queued behind it, or
the bytes happen to commute. -/
def Attempt.RestCommutes (a : Attempt) : Prop :=
  a.socket.requeued a.given ++ a.behind.flatten =
    a.behind.flatten ++ a.socket.requeued a.given

/-- The event puts no unwritten rest behind younger bytes. -/
def KeepsOrder (s : OutputRun) (e : OutputEvent) : Prop :=
  ∀ a, s.attempt e = some a → a.RestCommutes

/-- Every write of the run is accepted by the kernel, fully or in part. -/
def NoFailure (es : List OutputEvent) : Prop :=
  ∀ e ∈ es, e.socket? ≠ some .wouldBlock

instance (es : List OutputEvent) : Decidable (NoFailure es) :=
  inferInstanceAs (Decidable (∀ e ∈ es, _))

theorem attempt_socket {s : OutputRun} {e : OutputEvent} {a : Attempt}
    (h : s.attempt e = some a) : e.socket? = some a.socket := by
  unfold OutputRun.attempt at h
  rcases hq : s.conn.mOutputBuffer.mDataQueue with _ | ⟨oldest, rest⟩ <;>
    rw [hq] at h <;> cases e <;> simp [OutputEvent.attempt] at h <;>
    rw [← h] <;> rfl

theorem attempt_ne_wouldBlock {s : OutputRun} {e : OutputEvent} {a : Attempt}
    (hOk : e.socket? ≠ some .wouldBlock) (h : s.attempt e = some a) :
    ∃ n, a.socket = .room n := by
  have hSocket := attempt_socket h
  cases hk : a.socket with
  | room n => exact ⟨n, rfl⟩
  | wouldBlock => exact absurd (hk ▸ hSocket) hOk

/-- An accepted write splits its string. -/
theorem accepted_append_requeued (n : Nat) (buf : Bytes) :
    (SocketWrite.room n).accepted buf ++ (SocketWrite.room n).requeued buf = buf :=
  List.take_append_drop n buf

theorem inOrder_step_iff {s : OutputRun} {e : OutputEvent}
    (hOk : e.socket? ≠ some .wouldBlock) (hs : s.InOrder) :
    (outputStep s e).InOrder ↔ KeepsOrder s e := by
  obtain ⟨hSub, hQuiet, hWrote⟩ := outputStep_spec s e
  unfold OutputRun.InOrder at hs ⊢
  cases ha : s.attempt e with
  | none =>
    obtain ⟨hAcc, hHeld⟩ := hQuiet ha
    constructor
    · intro _ a h
      rw [ha] at h
      exact absurd h (by simp)
    · intro _
      rw [hSub, hAcc, hHeld, ← List.append_assoc, hs]
  | some a =>
    obtain ⟨n, hn⟩ := attempt_ne_wouldBlock hOk ha
    obtain ⟨late, hAll, hAcc, hHeld⟩ := hWrote a ha
    -- the written part and the rest of the string that was popped
    set taken := a.socket.accepted a.given with hTaken
    set tail := a.socket.requeued a.given with hTail
    have hSplit : taken ++ tail = a.given := by
      rw [hTaken, hTail, hn]
      exact accepted_append_requeued n a.given
    have hBefore : s.submitted ++ e.submits =
        s.accepted ++ taken ++ (tail ++ a.behind.flatten ++ late) := by
      calc s.submitted ++ e.submits
          = s.accepted ++ (s.held ++ e.submits) := by rw [← hs, List.append_assoc]
        _ = s.accepted ++ (taken ++ tail ++ a.behind.flatten ++ late) := by rw [hAll, hSplit]
        _ = s.accepted ++ taken ++ (tail ++ a.behind.flatten ++ late) := by
            simp only [List.append_assoc]
    -- what the event leaves differs from that in the place of the rest only
    rw [hSub, hAcc, hHeld, hBefore, List.append_cancel_left_eq, List.append_cancel_right_eq]
    constructor
    · intro h b hb
      rw [ha, Option.some.injEq] at hb
      subst hb
      exact h.symm
    · intro h
      exact (h a ha).symm

/--
**Output order.** In a run in which every kernel write accepts some
`0 ≤ n ≤ len` bytes, the accepted bytes followed by the queued ones are at every
point the submitted bytes in submission order, exactly if no event puts the
unwritten rest of a string behind strings queued after it.
-/
theorem output_in_order_iff {es : List OutputEvent} (hOk : NoFailure es) :
    Always outputStep OutputRun.InOrder OutputRun.start es ↔
      Each outputStep KeepsOrder OutputRun.start es := by
  refine always_iff_each (fun _ es => NoFailure es) ?_ ?_ rfl hOk
  · intro s e es hes _ _ e' he'
    exact hes e' (List.mem_cons_of_mem _ he')
  · intro s e es hes hs
    exact inOrder_step_iff (hes e (List.mem_cons_self ..)) hs

/-- Two queued messages, the first of which is written in full. -/
theorem output_in_order_two_messages :
    NoFailure [.putToBuffer [1, 2], .putToBuffer [3], .writable (.room 2)] ∧
    (Always outputStep OutputRun.InOrder OutputRun.start
        [.putToBuffer [1, 2], .putToBuffer [3], .writable (.room 2)] ↔
      Each outputStep KeepsOrder OutputRun.start
        [.putToBuffer [1, 2], .putToBuffer [3], .writable (.room 2)]) :=
  ⟨by decide, output_in_order_iff (by decide)⟩

/-- The same two messages with a short write: the rest of the first is queued
behind the second. -/
theorem output_reordered_by_short_write :
    NoFailure [.putToBuffer [1, 2], .putToBuffer [3], .writable (.room 1)] ∧
    ¬ Always outputStep OutputRun.InOrder OutputRun.start
        [.putToBuffer [1, 2], .putToBuffer [3], .writable (.room 1)] :=
  ⟨by decide, fun h => absurd h.final (by decide)⟩

-- ---------------------------------------------------------------------------
-- Conservation
-- ---------------------------------------------------------------------------

/-- A failing write is handed no bytes. -/
def LosesNothing (s : OutputRun) (e : OutputEvent) : Prop :=
  ∀ a, s.attempt e = some a → a.socket = .wouldBlock → a.given = []

/-- A write accounts for all the bytes it was given, unless it fails on some. -/
theorem accounted_iff (k : SocketWrite) (buf : Bytes) :
    (k.accepted buf).length + (k.requeued buf).length = buf.length ↔
      (k = .wouldBlock → buf = []) := by
  cases k with
  | room n =>
    constructor
    · intro _ h
      exact absurd h (by simp)
    · intro _
      -- what is taken and what is put back are the whole
      rw [← List.length_append, accepted_append_requeued]
  | wouldBlock =>
    simp only [SocketWrite.accepted, SocketWrite.requeued, List.length_nil, forall_const]
    rw [eq_comm]
    exact List.length_eq_zero_iff

theorem conserved_step_iff {s : OutputRun} {e : OutputEvent} (hs : s.Conserved) :
    (outputStep s e).Conserved ↔ LosesNothing s e := by
  obtain ⟨hSub, hQuiet, hWrote⟩ := outputStep_spec s e
  unfold OutputRun.Conserved at hs ⊢
  cases ha : s.attempt e with
  | none =>
    obtain ⟨hAcc, hHeld⟩ := hQuiet ha
    constructor
    · intro _ a h
      rw [ha] at h
      exact absurd h (by simp)
    · intro _
      rw [hSub, hAcc, hHeld, List.length_append, List.length_append]
      omega
  | some a =>
    obtain ⟨late, hAll, hAcc, hHeld⟩ := hWrote a ha
    have hLen := congrArg List.length hAll
    simp only [List.length_append] at hLen
    have hOne : LosesNothing s e ↔ (a.socket = .wouldBlock → a.given = []) := by
      constructor
      · intro h
        exact h a ha
      · intro h b hb
        rw [ha, Option.some.injEq] at hb
        exact hb ▸ h
    rw [hOne, ← accounted_iff, hSub, hAcc, hHeld]
    simp only [List.length_append]
    omega

/--
**Conservation.** Whatever each kernel write returns, the accepted and the queued
bytes add up to the submitted ones at every point, exactly if no failing write
was handed any bytes: what is handed to a write that returns -1 is gone.
-/
theorem output_conserved_iff (es : List OutputEvent) :
    Always outputStep OutputRun.Conserved OutputRun.start es ↔
      Each outputStep LosesNothing OutputRun.start es := by
  refine always_iff_each (fun _ _ => True) ?_ ?_ rfl trivial
  · intros
    trivial
  · intro s e es _ hs
    exact conserved_step_iff hs

/-- A queued message is dropped by a write that would block. -/
theorem output_lost_on_wouldBlock :
    ¬ Always outputStep OutputRun.Conserved OutputRun.start
        [.putToBuffer [1, 2, 3], .writable .wouldBlock] :=
  fun h => absurd h.final (by decide)

-- ---------------------------------------------------------------------------
-- Write events
-- ---------------------------------------------------------------------------

/-- The handler asks for write events, and the poller knows. -/
def TcpConnection.Writing (c : TcpConnection) : Prop :=
  c.mEvents &&& writeEvent ≠ 0 ∧ c.mPolledEvents &&& writeEvent ≠ 0

/-- Queued output has an event to flush it. -/
def OutputRun.Watched (s : OutputRun) : Prop :=
  s.conn.mOutputBuffer.mDataQueue ≠ [] → s.conn.Writing

theorem enableWriting_writing (c : TcpConnection) : c.enableWriting.Writing := by
  have hBit : (c.mEvents ||| writeEvent) &&& writeEvent ≠ 0 := by
    have hAbsorb : (c.mEvents ||| writeEvent) &&& writeEvent = writeEvent := by
      ext i
      simpa [BitVec.getElem_and, BitVec.getElem_or] using Or.inr
    rw [hAbsorb]
    decide
  exact ⟨hBit, hBit⟩

/-- A write to a buffer with an empty queue leaves something queued only if it returns less
than it was given, and then `send` sees that. -/
theorem write_pending {b : IOBuffer} {k : SocketWrite} {data : Bytes} (hEmpty : b.mDataQueue = [])
    (hPending : (b.write k data).2.mDataQueue ≠ []) :
    (data.length : Int) - (b.write k data).1 > 0 ∧ (b.write k data).1 ≥ 0 := by
  cases k with
  | wouldBlock => exact absurd hEmpty hPending
  | room n =>
    rw [IOBuffer.write] at hPending ⊢
    dsimp only at hPending ⊢
    split at hPending
    · rename_i hLeft
      rw [List.length_drop] at hLeft
      omega
    · exact absurd hEmpty hPending

/-- The comparison in `send` is one of a `size_t` with a `ssize_t`; for the results of a write
it comes to the same. -/
theorem send_compares (b : IOBuffer) (k : SocketWrite) {data : Bytes}
    (hSize : data.length < 2 ^ 63) :
    (BitVec.ofNat 64 data.length - BitVec.ofInt 64 (b.write k data).1 ≠ 0 ∧
        (b.write k data).1 ≥ 0) ↔
      (data.length : Int) - (b.write k data).1 > 0 ∧ (b.write k data).1 ≥ 0 := by
  cases k with
  | wouldBlock => simp [IOBuffer.write]
  | room n =>
    simp only [IOBuffer.write, SocketWrite.accepted, List.length_take]
    have hLe : min n data.length ≤ data.length := Nat.min_le_right _ _
    set taken := min n data.length
    have hZero : BitVec.ofNat 64 data.length - BitVec.ofNat 64 taken = 0 ↔ taken = data.length := by
      rw [← BitVec.toNat_inj, BitVec.toNat_sub, BitVec.toNat_ofNat, BitVec.toNat_ofNat]
      show _ = 0 ↔ _
      omega
    rw [BitVec.ofInt_natCast, Ne, hZero]
    omega

/-- One call keeps queued output watched. -/
theorem watched_step (s : OutputRun) (e : OutputEvent) (h : s.Watched) :
    (outputStep s e).Watched := by
  rcases hq : s.conn.mOutputBuffer.mDataQueue with _ | ⟨oldest, rest⟩
  · have hGet := IOBuffer.get_nil hq
    cases e with
    | send k msg =>
      intro hPending
      simp only [outputStep, TcpConnection.send, hGet] at hPending ⊢
      by_cases hRest : (msg.length : Int) - (s.conn.mOutputBuffer.write k msg).1 > 0 ∧
          (s.conn.mOutputBuffer.write k msg).1 ≥ 0
      · rw [if_pos hRest]
        exact enableWriting_writing _
      · -- all was taken, or all is lost: nothing is queued
        rw [if_neg hRest] at hPending
        exact absurd (write_pending hq hPending) hRest
    | putToBuffer msg => exact fun _ => enableWriting_writing _
    | writable k =>
      intro hPending
      simp only [outputStep, TcpConnection.writeFunc, hGet] at hPending
      exact absurd hq hPending
  · have hGet := IOBuffer.get_cons hq
    -- write events are asked for already
    have hWriting : s.conn.Writing := h (by rw [hq]; exact List.cons_ne_nil _ _)
    cases e with
    | send k msg =>
      intro _
      simp only [outputStep, TcpConnection.send, hGet]
      exact enableWriting_writing _
    | putToBuffer msg => exact fun _ => enableWriting_writing _
    | writable k =>
      intro _
      simp only [outputStep, TcpConnection.writeFunc, hGet]
      exact hWriting

/--
**Pending output is watched.** Whatever the calls and the results of the writes, as long as
something is queued the handler asks for write events, and its poller was told so.
-/
theorem output_watched (es : List OutputEvent) :
    Always outputStep OutputRun.Watched OutputRun.start es :=
  always_of_step watched_step fun hPending => absurd rfl hPending

end WarringServer.Net
