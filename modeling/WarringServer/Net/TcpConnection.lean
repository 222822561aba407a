import Mathlib.Logic.Function.Iterate
import WarringServer.Net.IOBuffer
import WarringServer.Lib.Framing

/-!
# TcpConnection — taking input and submitting output

Model of `Base/net/TcpConnection.h` with the parts of `EventHandler` and
`EventLoop` it drives: the events the connection's handler asks for (`mEvents`)
and those its poller was last updated with (`mPolledEvents`).

A call that writes to the socket is given the state of the socket and returns, next
to the new connection, the bytes the kernel accepted.

* `tryGet_take` / `tryGet_peek` — what `tryGet` returns and leaves, in terms of
  the byte stream `mIncompleteMessage` followed by the queued chunks, and
  `tryGet_takes` with the end of its loop;
* `readFunc_delivers` — a readable socket appends one chunk to that stream;
* `tryGet_peek_exact` — the case the stream view does not cover: a peek at exactly
  the incomplete message empties it.
-/

namespace WarringServer.Net

open Framing

-- ---------------------------------------------------------------------------
-- Event masks (`EventHandler.h`, `poll.h`)
-- ---------------------------------------------------------------------------

def noneEvent : BitVec 32 := 0
/-- `POLLIN | POLLPRI` -/
def readEvent : BitVec 32 := 0x003
/-- `POLLOUT` -/
def writeEvent : BitVec 32 := 0x004

-- ---------------------------------------------------------------------------
-- Connection
-- ---------------------------------------------------------------------------

structure TcpConnection where
  mEvents : BitVec 32
  mPolledEvents : BitVec 32
  mCommunicationTimestamp : Int
  mInputBuffer : IOBuffer
  mOutputBuffer : IOBuffer
  mIncompleteMessage : Bytes
deriving Repr, DecidableEq

namespace TcpConnection

/-- `enableWriting` followed by `EventLoop::update`. -/
def enableWriting (c : TcpConnection) : TcpConnection :=
  { c with mEvents := c.mEvents ||| writeEvent, mPolledEvents := c.mEvents ||| writeEvent }

/-- `disableWriting` followed by `EventLoop::update`. -/
def disableWriting (c : TcpConnection) : TcpConnection :=
  { c with mEvents := c.mEvents &&& ~~~writeEvent, mPolledEvents := c.mEvents &&& ~~~writeEvent }

/-- The constructor: reading enabled, writing disabled, both known to the poller. -/
def create : TcpConnection where
  mEvents := noneEvent ||| readEvent
  mPolledEvents := noneEvent ||| readEvent
  mCommunicationTimestamp := 0
  mInputBuffer := IOBuffer.create
  mOutputBuffer := IOBuffer.create
  mIncompleteMessage := []

-- ---------------------------------------------------------------------------
-- Output
-- ---------------------------------------------------------------------------

/-- `send`: writes the oldest queued string, or the data itself when nothing is
queued. -/
def send (c : TcpConnection) (k : SocketWrite) (data : Bytes) : Bytes × TcpConnection :=
  match c.mOutputBuffer.get with
  | (none, out) =>
    let (n, out) := out.write k data
    let c := { c with mOutputBuffer := out }
    (k.accepted data, if (data.length : Int) - n > 0 ∧ n ≥ 0 then c.enableWriting else c)
  | (some msg, out) =>
    -- the new data waits its turn behind the rest of the oldest
    let (_, out) := out.write k msg
    (k.accepted msg, { c with mOutputBuffer := out.put data }.enableWriting)

def putToBuffer (c : TcpConnection) (data : Bytes) : TcpConnection :=
  { c with mOutputBuffer := c.mOutputBuffer.put data }.enableWriting

/-- `writeFunc`, the handler of a writable socket. -/
def writeFunc (c : TcpConnection) (k : SocketWrite) : Bytes × TcpConnection :=
  match c.mOutputBuffer.get with
  | (none, _) => ([], c.disableWriting)
  | (some str, out) => (k.accepted str, { c with mOutputBuffer := (out.write k str).2 })

-- ---------------------------------------------------------------------------
-- Input
-- ---------------------------------------------------------------------------

/-- The `while` loop of `tryGet`: chunks move from the queue to the incomplete
message until it is long enough. Returns the result, the incomplete message and
the queue. -/
def tryGetLoop (len : Nat) (takeAway : Bool) : Bytes → List Bytes → Bytes × Bytes × List Bytes
  | incomplete, [] => ([], incomplete, [])
  | incomplete, msg :: queue =>
    let l := msg.length
    if l + incomplete.length = len then
      let incomplete := incomplete ++ msg
      (incomplete, if takeAway then [] else incomplete, queue)
    else if l + incomplete.length < len then
      -- not enough yet: the chunk stays in `mIncompleteMessage` even for a peek
      tryGetLoop len takeAway (incomplete ++ msg) queue
    else
      let incomplete := incomplete ++ msg
      (incomplete.take len, if takeAway then incomplete.drop len else incomplete, queue)

/-- The `len <= 0` block of `tryGet`; `none` when control passes on. -/
def tryGetOldest (c : TcpConnection) (takeAway : Bool) : Option (Bytes × TcpConnection) :=
  if c.mIncompleteMessage.isEmpty then
    match c.mInputBuffer.get with
    | (some msg, input) => some (msg, { c with mInputBuffer := input })
    | (none, _) => none
  else if takeAway then
    some (c.mIncompleteMessage, { c with mIncompleteMessage := [] })
  else
    some (c.mIncompleteMessage, c)

/-- The rest of `tryGet`. -/
def tryGetLen (c : TcpConnection) (len : Nat) (takeAway : Bool) : Bytes × TcpConnection :=
  if c.mIncompleteMessage.length = len then
    -- `res = std::move(mIncompleteMessage)`: a moved-from `std::string` is left
    -- empty, whether or not `takeAway` clears it once more
    (c.mIncompleteMessage, { c with mIncompleteMessage := [] })
  else if c.mIncompleteMessage.length > len then
    (c.mIncompleteMessage.take len,
      if takeAway then { c with mIncompleteMessage := c.mIncompleteMessage.drop len } else c)
  else
    let (res, incomplete, queue) :=
      tryGetLoop len takeAway c.mIncompleteMessage c.mInputBuffer.mDataQueue
    (res, { c with
      mIncompleteMessage := incomplete
      mInputBuffer := { c.mInputBuffer with mDataQueue := queue } })

def tryGet (c : TcpConnection) (len : Nat) (takeAway : Bool) : Bytes × TcpConnection :=
  match if len ≤ 0 then c.tryGetOldest takeAway else none with
  | some result => result
  | none => c.tryGetLen len takeAway

/-- What `readFunc` calls when the socket is readable. -/
inductive ReadCallback where
  | messageFunc
  | closeFunc
  | errorFunc
deriving Repr, DecidableEq

/-- `readFunc` up to the callback it ends with. -/
def readFunc (c : TcpConnection) (delivered : Option Bytes) : ReadCallback × TcpConnection :=
  let (n, input) := c.mInputBuffer.read delivered
  let c := { c with mInputBuffer := input }
  if n > 0 then (.messageFunc, c)
  else if n = 0 then (.closeFunc, c)
  else (.errorFunc, c)

/-- A chunk arrives in the input buffer. -/
def deliver (c : TcpConnection) (chunk : Bytes) : TcpConnection :=
  { c with mInputBuffer := c.mInputBuffer.put chunk }

-- ---------------------------------------------------------------------------
-- Input as a byte stream
-- ---------------------------------------------------------------------------

/-- The bytes received and not consumed. -/
def buffered (c : TcpConnection) : Bytes := c.mIncompleteMessage ++ c.mInputBuffer.queued

@[simp] theorem deliver_buffered (c : TcpConnection) (chunk : Bytes) :
    (c.deliver chunk).buffered = c.buffered ++ chunk := by
  simp [buffered, deliver]

@[simp] theorem deliver_mIncompleteMessage (c : TcpConnection) (chunk : Bytes) :
    (c.deliver chunk).mIncompleteMessage = c.mIncompleteMessage := rfl

/-- A readable socket delivers its bytes as one chunk and runs `messageFunc`. -/
theorem readFunc_delivers {c : TcpConnection}
    (hSize : c.mInputBuffer.mData.length = c.mInputBuffer.mCurrSize)
    (hInit : 0 < c.mInputBuffer.mCurrSize) {bytes : Bytes} (hPos : bytes ≠ []) :
    (c.readFunc (some bytes)).1 = .messageFunc ∧
      (c.readFunc (some bytes)).2.mIncompleteMessage = c.mIncompleteMessage ∧
      (c.readFunc (some bytes)).2.buffered = (c.deliver bytes).buffered := by
  obtain ⟨hCount, hQueue⟩ := IOBuffer.read_delivers hSize hInit hPos
  have hLen : 0 < bytes.length := List.length_pos_of_ne_nil hPos
  have hRead : c.readFunc (some bytes) =
      (.messageFunc, { c with mInputBuffer := (c.mInputBuffer.read (some bytes)).2 }) := by
    simp only [readFunc, hCount]
    rw [if_pos (by omega)]
  rw [hRead, deliver_buffered]
  refine ⟨rfl, rfl, ?_⟩
  simp only [buffered, IOBuffer.queued, hQueue, List.flatten_append, List.flatten_singleton,
    List.append_assoc]

/-- The loop takes off the front of the stream, or only looks at it. -/
theorem tryGetLoop_stream (len : Nat) (takeAway : Bool) :
    ∀ (queue : List Bytes) (incomplete : Bytes), incomplete.length < len →
    let r := tryGetLoop len takeAway incomplete queue
    let stream := incomplete ++ queue.flatten
    r.1 = (takeFront len stream).1 ∧
      r.2.1 ++ r.2.2.flatten = if takeAway then (takeFront len stream).2 else stream := by
  intro queue
  -- by induction on the queue, whose chunks move to the incomplete message
  induction queue with
  | nil =>
    intro incomplete hLt
    -- all chunks together are too short
    have hShort : takeFront len (incomplete ++ [].flatten) = ([], incomplete ++ [].flatten) :=
      takeFront_of_lt (by simpa using hLt)
    rw [tryGetLoop]
    dsimp only
    rw [hShort]
    cases takeAway <;> simp
  | cons msg queue ih =>
    intro incomplete hLt
    have hAssoc : incomplete ++ (msg :: queue).flatten = (incomplete ++ msg) ++ queue.flatten := by
      simp
    have hLen : (incomplete ++ msg).length = msg.length + incomplete.length := by
      rw [List.length_append, Nat.add_comm]
    rw [tryGetLoop]
    dsimp only
    rw [hAssoc]
    by_cases hEq : msg.length + incomplete.length = len
    · -- the chunk completes the request exactly
      have hAll : len = (incomplete ++ msg).length := by omega
      rw [if_pos hEq, takeFront_append (by omega), hAll, List.take_length, List.drop_length]
      cases takeAway <;> simp
    · by_cases hMore : msg.length + incomplete.length < len
      · rw [if_neg hEq, if_pos hMore]
        exact ih (incomplete ++ msg) (by omega)
      · -- the chunk brings more than was asked for
        rw [if_neg hEq, if_neg hMore, takeFront_append (by omega)]
        cases takeAway <;> simp

/-- `tryGet(len, true)` takes `len` bytes off the front of the stream, or
nothing when fewer are buffered. -/
theorem tryGet_take (c : TcpConnection) {len : Nat} (hPos : 0 < len) :
    ((c.tryGet len true).1, (c.tryGet len true).2.buffered) = takeFront len c.buffered := by
  have hNot : ¬ len ≤ 0 := by omega
  simp only [tryGet, if_neg hNot, tryGetLen]
  split
  · -- the incomplete message is what was asked for
    rename_i hEq
    rw [buffered, buffered, takeFront_append (by omega), ← hEq, List.take_length,
      List.drop_length]
  · split
    · rename_i hGt
      -- the incomplete message is more than was asked for, the queue is not touched
      rw [buffered, buffered, takeFront_append (by omega)]
      rfl
    · -- it is less, so the loop goes for the queue
      have hLoop := tryGetLoop_stream len true c.mInputBuffer.mDataQueue
        c.mIncompleteMessage (by omega)
      exact Prod.ext hLoop.1 hLoop.2

-- ---------------------------------------------------------------------------
-- The loop, one iteration at a time
-- ---------------------------------------------------------------------------

/-- What the `while` loop of `tryGet` works on; `left` after a `break`. -/
structure TryGetState where
  res : Bytes
  mIncompleteMessage : Bytes
  mDataQueue : List Bytes
  left : Bool
deriving Repr, DecidableEq

namespace TryGetState

/-- There is another iteration. -/
def Running (s : TryGetState) : Prop := s.left = false ∧ s.mDataQueue ≠ []

/-- The body of the loop, for the oldest chunk. -/
def iterate (len : Nat) (takeAway : Bool) (s : TryGetState) : TryGetState :=
  match s.left, s.mDataQueue with
  | false, msg :: queue =>
    let l := msg.length
    let incomplete := s.mIncompleteMessage ++ msg
    if l + s.mIncompleteMessage.length = len then
      ⟨incomplete, if takeAway then [] else incomplete, queue, true⟩
    else if l + s.mIncompleteMessage.length < len then
      ⟨s.res, incomplete, queue, false⟩
    else
      ⟨incomplete.take len, if takeAway then incomplete.drop len else incomplete, queue, true⟩
  | _, _ => s

/-- The loop comes to its end after at most one iteration for each chunk, with the result
of `tryGetLoop`. -/
theorem terminates (len : Nat) (takeAway : Bool) (queue : List Bytes) (incomplete : Bytes) :
    ∃ k ≤ queue.length, ∃ left,
      let r := tryGetLoop len takeAway incomplete queue
      (iterate len takeAway)^[k] ⟨[], incomplete, queue, false⟩ = ⟨r.1, r.2.1, r.2.2, left⟩ ∧
        ¬ (⟨r.1, r.2.1, r.2.2, left⟩ : TryGetState).Running := by
  induction queue generalizing incomplete with
  | nil => exact ⟨0, Nat.le_refl 0, false, rfl, fun h => h.2 rfl⟩
  | cons msg queue ih =>
    rw [tryGetLoop]
    dsimp only
    by_cases hEq : msg.length + incomplete.length = len
    · refine ⟨1, by simp, true, ?_, fun h => nomatch h.1⟩
      rw [if_pos hEq, Function.iterate_one, iterate]
      dsimp only
      rw [if_pos hEq]
    · by_cases hMore : msg.length + incomplete.length < len
      · -- the chunk is not enough: the other iterations are those of the rest
        obtain ⟨k, hk, left, hLoop, hEnd⟩ := ih (incomplete ++ msg)
        refine ⟨k + 1, Nat.succ_le_succ hk, left, ?_⟩
        rw [if_neg hEq, if_pos hMore]
        refine ⟨?_, hEnd⟩
        rw [Function.iterate_succ_apply, iterate]
        dsimp only
        rw [if_neg hEq, if_pos hMore]
        exact hLoop
      · refine ⟨1, by simp, true, ?_, fun h => nomatch h.1⟩
        rw [if_neg hEq, if_neg hMore, Function.iterate_one, iterate]
        dsimp only
        rw [if_neg hEq, if_neg hMore]

end TryGetState

/-- **Taking from the input stream.** With enough bytes buffered, `tryGet(len, true)` returns
the first `len` of them and leaves the rest; otherwise it returns nothing and the
bytes stay. Its loop ends, whatever is queued: where it is entered, `tryGet` returns what the
last iteration leaves. -/
theorem tryGet_takes (c : TcpConnection) (len : Nat) (hPos : 0 < len) :
    (if len ≤ c.buffered.length then
        (c.tryGet len true).1 = c.buffered.take len ∧
          (c.tryGet len true).2.buffered = c.buffered.drop len
      else
        (c.tryGet len true).1 = [] ∧ (c.tryGet len true).2.buffered = c.buffered) ∧
      ∃ k ≤ c.mInputBuffer.mDataQueue.length,
        let s := (TryGetState.iterate len true)^[k]
          ⟨[], c.mIncompleteMessage, c.mInputBuffer.mDataQueue, false⟩
        ¬ s.Running ∧ (c.mIncompleteMessage.length < len →
          c.tryGet len true = (s.res,
            { c with
              mIncompleteMessage := s.mIncompleteMessage
              mInputBuffer := { c.mInputBuffer with mDataQueue := s.mDataQueue } })) := by
  refine ⟨?_, ?_⟩
  · have hTake := tryGet_take c hPos
    split
    · rename_i hEnough
      rw [takeFront_of_le hEnough] at hTake
      exact Prod.ext_iff.mp hTake
    · rename_i hShort
      rw [takeFront_of_lt (Nat.lt_of_not_le hShort)] at hTake
      exact Prod.ext_iff.mp hTake
  · obtain ⟨k, hk, left, hLoop, hEnd⟩ :=
      TryGetState.terminates len true c.mInputBuffer.mDataQueue c.mIncompleteMessage
    refine ⟨k, hk, ?_⟩
    rw [hLoop]
    refine ⟨hEnd, fun hShort => ?_⟩
    -- the incomplete message is too short, so the loop is entered
    rw [tryGet, if_neg (Nat.not_le.mpr hPos)]
    dsimp only
    rw [tryGetLen, if_neg (Nat.ne_of_lt hShort), if_neg (Nat.not_lt.mpr (Nat.le_of_lt hShort))]

/-- Three bytes of two chunks. -/
theorem tryGet_takes_three :
    (((create.deliver [1, 2]).deliver [3, 4]).tryGet 3 true).1 = [1, 2, 3] ∧
      (((create.deliver [1, 2]).deliver [3, 4]).tryGet 3 true).2.buffered = [4] := by
  have h := (tryGet_takes ((create.deliver [1, 2]).deliver [3, 4]) 3 (by decide)).1
  rwa [if_pos (by decide)] at h

/-- `tryGet(len, false)` looks at the front of the stream and leaves it as it is,
unless the incomplete message has exactly `len` bytes. -/
theorem tryGet_peek (c : TcpConnection) {len : Nat} (hPos : 0 < len)
    (hNe : c.mIncompleteMessage.length ≠ len) :
    (c.tryGet len false).1 = (takeFront len c.buffered).1 ∧
      (c.tryGet len false).2.buffered = c.buffered := by
  have hNot : ¬ len ≤ 0 := by omega
  simp only [tryGet, if_neg hNot, tryGetLen, if_neg hNe]
  split
  · rename_i hGt
    rw [buffered, takeFront_append (by omega)]
    exact ⟨rfl, rfl⟩
  · exact tryGetLoop_stream len false c.mInputBuffer.mDataQueue
      c.mIncompleteMessage (by omega)

/-- **A peek at exactly the incomplete message consumes it.** -/
theorem tryGet_peek_exact (c : TcpConnection) {len : Nat} (hPos : 0 < len)
    (hEq : c.mIncompleteMessage.length = len) :
    c.tryGet len false = (c.mIncompleteMessage, { c with mIncompleteMessage := [] }) := by
  have hNot : ¬ len ≤ 0 := by omega
  simp only [tryGet, if_neg hNot, tryGetLen, if_pos hEq]

end TcpConnection

end WarringServer.Net
