import WarringServer.Net.TcpConnection
import WarringServer.Lib.LittleEndian
import WarringServer.Lib.Run

/-!
# Reading frames — the first half of `messageFunc`

`LoginMessageOp::messageFunc`, `GameMessageOp::messageFunc` and
`GatewayMessageOp::messageFunc` begin with the same lines: peek at the 8 bytes that
hold `MSG_LEN`, then take that many bytes. `readFrame` is these lines, up to the
frame that is handed to `deserialize`; nothing after them touches the input side of
the connection.

The abstract counterpart is `Framing.next` at `messageFormat`: cutting the next
frame off the buffered byte stream. `readFrame_spec` is the refinement; it holds
unless `mIncompleteMessage` has exactly the 8 bytes of the header, because
`tryGet(8, false)` then moves them out (`readFrame_header_lost`).

Main results, over runs in which chunks arrive one after another and
`messageFunc` runs once after each:

* `framing_safe_iff` — the frames taken are the messages sent, in order and with
  no byte lost, exactly if no run of `messageFunc` starts with an 8-byte
  `mIncompleteMessage`;
* `framing_drained_iff` — nothing complete or unsatisfiable stays buffered exactly
  if each run has at most one frame to take and no header that declares fewer than 8
  bytes.
-/

namespace WarringServer.Server

open Framing Run Net

/-- `sizeof(message::MESSAGE_LENGTH_TYPE)` -/
def messageLengthSize : Nat := 8

/-- The first lines of `messageFunc`: the frame it hands to `deserialize`, if any. -/
def readFrame (c : TcpConnection) : Option Bytes × TcpConnection :=
  let (msg, c) := c.tryGet messageLengthSize false
  if msg.isEmpty then
    (none, c)
  else
    let len := LittleEndian.decode (msg.take messageLengthSize)
    if len ≥ messageLengthSize then
      let (msg, c) := c.tryGet len true
      if msg.isEmpty then (none, c) else (some msg, c)
    else
      (none, c)

-- ---------------------------------------------------------------------------
-- The byte stream a server reads
-- ---------------------------------------------------------------------------

/-- Frames announce their whole length in their first 8 bytes. -/
def messageFormat : Format UInt8 where
  header := messageLengthSize
  declared xs := LittleEndian.decode (xs.take messageLengthSize)
  declared_append xs ys h := by rw [List.take_append_of_le_length h]

theorem isEmpty_take {xs : Bytes} {n : Nat} (hPos : 0 < n) (h : n ≤ xs.length) :
    (xs.take n).isEmpty = false := by
  rw [List.isEmpty_eq_false_iff]
  intro hNil
  have := congrArg List.length hNil
  rw [List.length_take, List.length_nil] at this
  omega

/-- **Refinement.** Off the 8-byte case, `readFrame` cuts the next frame off the
buffered stream. -/
theorem readFrame_spec {c : TcpConnection}
    (hPeek : c.mIncompleteMessage.length ≠ messageLengthSize) :
    (readFrame c).1 = (next messageFormat c.buffered).map Prod.fst ∧
      (readFrame c).2.buffered =
        ((next messageFormat c.buffered).map Prod.snd).getD c.buffered := by
  have hEight : 0 < messageLengthSize := by decide
  obtain ⟨hMsg, hSame⟩ := TcpConnection.tryGet_peek c hEight hPeek
  by_cases hShort : c.buffered.length < messageLengthSize
  · -- not even a header
    rw [takeFront_of_lt hShort] at hMsg
    have hNone : next messageFormat c.buffered = none := next_of_drained (Or.inl hShort)
    rw [hNone]
    unfold readFrame
    simp only [hMsg, List.isEmpty_nil, if_true, Option.map_none, Option.getD_none, true_and]
    exact hSame
  · have hHeader : messageLengthSize ≤ c.buffered.length := Nat.le_of_not_lt hShort
    rw [takeFront_of_le hHeader] at hMsg
    obtain ⟨len, hLen⟩ : ∃ len, messageFormat.declared c.buffered = len := ⟨_, rfl⟩
    have hPeeked : (c.tryGet messageLengthSize false).1.isEmpty = false := by
      rw [hMsg]
      exact isEmpty_take hEight hHeader
    have hDecl : LittleEndian.decode
        ((c.tryGet messageLengthSize false).1.take messageLengthSize) = len := by
      rw [hMsg, List.take_take, Nat.min_self]
      exact hLen
    -- what is left of `readFrame` once the header is there
    have hRead : readFrame c =
        if len ≥ messageLengthSize then
          let (msg, c) := (c.tryGet messageLengthSize false).2.tryGet len true
          if msg.isEmpty then (none, c) else (some msg, c)
        else
          (none, (c.tryGet messageLengthSize false).2) := by
      unfold readFrame
      simp only [hPeeked, hDecl, Bool.false_eq_true, if_false]
    by_cases hBig : len ≥ messageLengthSize
    · have hTake := TcpConnection.tryGet_take (c.tryGet messageLengthSize false).2
        (show 0 < len by omega)
      rw [hSame] at hTake
      by_cases hFits : len ≤ c.buffered.length
      · -- a complete frame
        rw [takeFront_of_le hFits, Prod.mk.injEq] at hTake
        have hSome : next messageFormat c.buffered =
            some (c.buffered.take len, c.buffered.drop len) := by
          have hCond : messageFormat.header ≤ c.buffered.length ∧
              messageFormat.header ≤ messageFormat.declared c.buffered ∧
              messageFormat.declared c.buffered ≤ c.buffered.length := by
            rw [hLen]
            exact ⟨hHeader, hBig, hFits⟩
          rw [← hLen]
          exact if_pos hCond
        have hNonempty :
            ((c.tryGet messageLengthSize false).2.tryGet len true).1.isEmpty = false := by
          rw [hTake.1]
          exact isEmpty_take (by omega) hFits
        rw [hRead, hSome, if_pos hBig]
        simp only [hNonempty, Bool.false_eq_true, if_false, Option.map_some, Option.getD_some]
        exact ⟨congrArg some hTake.1, hTake.2⟩
      · -- the announced frame has not arrived yet
        rw [takeFront_of_lt (by omega), Prod.mk.injEq] at hTake
        have hNone : next messageFormat c.buffered = none :=
          next_of_drained (Or.inr (hLen ▸ Nat.not_le.mp hFits))
        rw [hRead, hNone, if_pos hBig]
        simp only [hTake.1, List.isEmpty_nil, if_true, Option.map_none, Option.getD_none,
          true_and]
        exact hTake.2
    · -- fewer than 8 bytes are announced: `messageFunc` returns
      have hNone : next messageFormat c.buffered = none := by
        refine if_neg ?_
        rintro ⟨-, h, -⟩
        rw [hLen] at h
        exact hBig h
      rw [hRead, hNone, if_neg hBig]
      exact ⟨rfl, hSame⟩

/-- What is taken and left of a stream whose header was moved out by the peek: the
header still says how much to take. -/
def behindHeader (header stream : Bytes) : Bytes × Bytes :=
  if messageLengthSize ≤ LittleEndian.decode header then
    takeFront (LittleEndian.decode header) stream
  else
    ([], stream)

theorem behindHeader_length (header stream : Bytes) :
    (behindHeader header stream).1.length + (behindHeader header stream).2.length =
      stream.length := by
  unfold behindHeader takeFront
  split
  · split
    · rw [← List.length_append, List.take_append_drop]
    · exact Nat.zero_add _
  · exact Nat.zero_add _

/-- **The peek loses a header** when `mIncompleteMessage` is exactly that: the frame is
cut off what follows the header. -/
theorem readFrame_header_lost {c : TcpConnection}
    (hPeek : c.mIncompleteMessage.length = messageLengthSize) :
    ((readFrame c).1.getD [], (readFrame c).2.buffered) =
      behindHeader c.mIncompleteMessage c.mInputBuffer.queued := by
  have hEight : 0 < messageLengthSize := by decide
  have hNonempty : c.mIncompleteMessage.isEmpty = false := by
    rw [← List.take_length (l := c.mIncompleteMessage)]
    exact isEmpty_take (by omega) (Nat.le_refl _)
  have hHeader : c.mIncompleteMessage.take messageLengthSize = c.mIncompleteMessage := by
    rw [← hPeek, List.take_length]
  unfold readFrame behindHeader
  rw [TcpConnection.tryGet_peek_exact c hEight hPeek]
  simp only [hNonempty, hHeader, Bool.false_eq_true, if_false]
  set len := LittleEndian.decode c.mIncompleteMessage
  set c' : TcpConnection := { c with mIncompleteMessage := [] }
  have hRest : c'.buffered = c.mInputBuffer.queued := List.nil_append _
  by_cases hBig : messageLengthSize ≤ len
  · have hTake := TcpConnection.tryGet_take c' (show 0 < len by omega)
    rw [if_pos hBig, if_pos hBig, ← hRest, ← hTake]
    by_cases hEmpty : (c'.tryGet len true).1.isEmpty = true
    · rw [if_pos hEmpty, List.isEmpty_iff.mp hEmpty]
      rfl
    · rw [if_neg hEmpty]
      rfl
  · rw [if_neg hBig, if_neg hBig, ← hRest]
    rfl

-- ---------------------------------------------------------------------------
-- Runs
-- ---------------------------------------------------------------------------

/-- A connection with all bytes delivered to it and the frames taken off it. -/
structure InputRun where
  conn : TcpConnection
  delivered : Bytes
  frames : List Bytes
deriving Repr, DecidableEq

def InputRun.start : InputRun := ⟨TcpConnection.create, [], []⟩

/-- A chunk arrives and `messageFunc` runs once. -/
def inputStep (s : InputRun) (chunk : Bytes) : InputRun :=
  let (frame, c) := readFrame (s.conn.deliver chunk)
  ⟨c, s.delivered ++ chunk, s.frames ++ frame.toList⟩

/-- `messageFunc` does not start with exactly a header in `mIncompleteMessage`. -/
def PeekSafe (s : InputRun) (_chunk : Bytes) : Prop :=
  s.conn.mIncompleteMessage.length ≠ messageLengthSize

instance (s : InputRun) (chunk : Bytes) : Decidable (PeekSafe s chunk) :=
  inferInstanceAs (Decidable (_ ≠ _))

theorem inputStep_frame {s : InputRun} {chunk f rest : Bytes} (hPeek : PeekSafe s chunk)
    (h : next messageFormat (s.conn.buffered ++ chunk) = some (f, rest)) :
    (inputStep s chunk).frames = s.frames ++ [f] ∧ (inputStep s chunk).conn.buffered = rest := by
  obtain ⟨hFrame, hRest⟩ := readFrame_spec (c := s.conn.deliver chunk) hPeek
  rw [TcpConnection.deliver_buffered, h] at hFrame hRest
  refine ⟨?_, hRest⟩
  show s.frames ++ (readFrame (s.conn.deliver chunk)).1.toList = s.frames ++ [f]
  rw [hFrame]
  rfl

theorem inputStep_wait {s : InputRun} {chunk : Bytes} (hPeek : PeekSafe s chunk)
    (h : next messageFormat (s.conn.buffered ++ chunk) = none) :
    (inputStep s chunk).frames = s.frames ∧
      (inputStep s chunk).conn.buffered = s.conn.buffered ++ chunk := by
  obtain ⟨hFrame, hRest⟩ := readFrame_spec (c := s.conn.deliver chunk) hPeek
  rw [TcpConnection.deliver_buffered, h] at hFrame hRest
  refine ⟨?_, hRest⟩
  show s.frames ++ (readFrame (s.conn.deliver chunk)).1.toList = s.frames
  rw [hFrame]
  exact List.append_nil _

-- ---------------------------------------------------------------------------
-- Framing safety
-- ---------------------------------------------------------------------------

/-- The frames taken are the first messages sent, and together with the buffered
bytes they are all that was delivered: nothing dropped, duplicated or shifted. -/
structure Framed (ms : List Bytes) (s : InputRun) : Prop where
  frames_prefix : s.frames <+: ms
  no_byte_lost : s.frames.flatten ++ s.conn.buffered = s.delivered

/-- Received so far, and about to be received, is a prefix of the messages. -/
def ArrivesFrom (ms : List Bytes) (s : InputRun) (chunks : List Bytes) : Prop :=
  s.delivered ++ chunks.flatten <+: ms.flatten

/-- What is buffered and what arrives is a prefix of the messages still to come. -/
theorem Framed.rest {ms : List Bytes} {s : InputRun} {chunk : Bytes} {chunks : List Bytes}
    (h : Framed ms s) (hArr : ArrivesFrom ms s (chunk :: chunks)) :
    ∃ rest, ms = s.frames ++ rest ∧ s.conn.buffered ++ chunk <+: rest.flatten := by
  obtain ⟨rest, hRest⟩ := h.frames_prefix
  obtain ⟨tail, hTail⟩ := hArr
  refine ⟨rest, hRest.symm, ⟨chunks.flatten ++ tail, ?_⟩⟩
  rw [← h.no_byte_lost, ← hRest, List.flatten_append, List.flatten_cons] at hTail
  simp only [List.append_assoc, List.append_cancel_left_eq] at hTail ⊢
  exact hTail

theorem framed_step_iff {ms : List Bytes} (hms : ∀ m ∈ ms, WellFormed messageFormat m)
    {s : InputRun} {chunk : Bytes} {chunks : List Bytes}
    (hArr : ArrivesFrom ms s (chunk :: chunks)) (hs : Framed ms s) :
    Framed ms (inputStep s chunk) ↔ PeekSafe s chunk := by
  constructor
  · -- a header lost by the peek is missing from then on
    intro hAfter hEight
    have hLost := readFrame_header_lost (c := s.conn.deliver chunk) hEight
    have hTaken := congrArg List.length (congrArg Prod.fst hLost)
    have hLeft := congrArg List.length (congrArg Prod.snd hLost)
    have hSplit := behindHeader_length (s.conn.deliver chunk).mIncompleteMessage
      (s.conn.deliver chunk).mInputBuffer.queued
    -- counting bytes: 8 of those delivered are neither in a frame nor in the buffer
    have hBehind : s.conn.buffered.length + chunk.length = messageLengthSize +
        (s.conn.deliver chunk).mInputBuffer.queued.length := by
      rw [← List.length_append, ← TcpConnection.deliver_buffered, TcpConnection.buffered,
        List.length_append]
      exact congrArg (· + _) hEight
    have hBefore := congrArg List.length hs.no_byte_lost
    have hNow := congrArg List.length hAfter.no_byte_lost
    have hFrames : (inputStep s chunk).frames.flatten.length =
        s.frames.flatten.length + ((readFrame (s.conn.deliver chunk)).1.getD []).length := by
      show (s.frames ++ (readFrame (s.conn.deliver chunk)).1.toList).flatten.length = _
      cases (readFrame (s.conn.deliver chunk)).1 <;> simp
    have hDelivered : (inputStep s chunk).delivered.length =
        s.delivered.length + chunk.length := List.length_append
    have hBuf : (inputStep s chunk).conn.buffered.length =
        (readFrame (s.conn.deliver chunk)).2.buffered.length := rfl
    have hPositive : 0 < messageLengthSize := by decide
    rw [List.length_append] at hBefore hNow
    dsimp only at hTaken hLeft
    omega
  · intro hPeek
    obtain ⟨rest, hSplit, hPre⟩ := hs.rest hArr
    cases hNext : next messageFormat (s.conn.buffered ++ chunk) with
    | none =>
      -- no frame is complete: the bytes stay where they are
      obtain ⟨hFrames, hBuf⟩ := inputStep_wait hPeek hNext
      refine ⟨by rw [hFrames]; exact hs.frames_prefix, ?_⟩
      rw [hFrames, hBuf, ← List.append_assoc, hs.no_byte_lost]
      rfl
    | some cut =>
      obtain ⟨f, tail⟩ := cut
      obtain ⟨hFrames, hBuf⟩ := inputStep_frame hPeek hNext
      cases rest with
      | nil =>
        -- all messages are taken, nothing is left to cut off
        rw [next_of_prefix_nil (by decide) hPre] at hNext
        exact absurd hNext (by simp)
      | cons m rest =>
        -- the frame cut off the stream is the next message
        have hm : WellFormed messageFormat m := hms m (by rw [hSplit]; simp)
        obtain ⟨rfl, -⟩ := next_of_prefix hm hPre hNext
        refine ⟨⟨rest, ?_⟩, ?_⟩
        · rw [hFrames, hSplit, List.append_assoc, List.singleton_append]
        · rw [hFrames, hBuf, List.flatten_append, List.flatten_singleton, List.append_assoc,
            ← next_append hNext, ← List.append_assoc, hs.no_byte_lost]
          rfl

/--
**Framing safety.** Well-formed messages are sent one after another and arrive
cut into any chunks. At every point of the run the frames handed to `deserialize`
are the first messages and no byte is lost, exactly if no run of `messageFunc`
starts with `mIncompleteMessage` holding just the 8 bytes of a header.
-/
theorem framing_safe_iff {ms chunks : List Bytes}
    (hms : ∀ m ∈ ms, WellFormed messageFormat m) (hArr : chunks.flatten <+: ms.flatten) :
    Always inputStep (Framed ms) InputRun.start chunks ↔
      Each inputStep PeekSafe InputRun.start chunks := by
  refine always_iff_each (ArrivesFrom ms) ?_ ?_ ⟨List.nil_prefix, rfl⟩ hArr
  · intro s chunk rest hRest _ _
    have hEq : (inputStep s chunk).delivered ++ rest.flatten =
        s.delivered ++ (chunk :: rest).flatten := by
      show s.delivered ++ chunk ++ rest.flatten = _
      rw [List.flatten_cons, List.append_assoc]
    rw [ArrivesFrom, hEq]
    exact hRest
  · intro s chunk rest hRest hs
    exact framed_step_iff hms hRest hs

/-- A message of 24 bytes: a bare header. -/
def bareMessage (fill : UInt8) : Bytes :=
  LittleEndian.encode 8 24 ++ List.replicate 16 fill

theorem bareMessage_wellFormed (fill : UInt8) : WellFormed messageFormat (bareMessage fill) := by
  refine ⟨by simp [bareMessage, messageFormat, messageLengthSize], ?_⟩
  show LittleEndian.decode ((LittleEndian.encode 8 24 ++ List.replicate 16 fill).take 8) = _
  rw [List.take_left' (LittleEndian.encode_length 8 24),
    LittleEndian.decode_encode_of_lt (by decide)]
  simp [bareMessage]

/-- Two messages cut in the middle of the second header. -/
theorem framing_safe_two_messages :
    (∀ m ∈ [bareMessage 1, bareMessage 2], WellFormed messageFormat m) ∧
    (Always inputStep (Framed [bareMessage 1, bareMessage 2]) InputRun.start
        [bareMessage 1 ++ (bareMessage 2).take 5, (bareMessage 2).drop 5] ↔
      Each inputStep PeekSafe InputRun.start
        [bareMessage 1 ++ (bareMessage 2).take 5, (bareMessage 2).drop 5]) := by
  have hms : ∀ m ∈ [bareMessage 1, bareMessage 2], WellFormed messageFormat m := by
    intro m hm
    rcases List.mem_cons.mp hm with rfl | hm
    · exact bareMessage_wellFormed 1
    · rw [List.mem_singleton.mp hm]
      exact bareMessage_wellFormed 2
  exact ⟨hms, framing_safe_iff hms ⟨[], by decide⟩⟩

/-- Two messages, the first chunk ending right behind the first header: the
frame that is handed on consists of the end of the first message and the beginning
of the second. -/
theorem framing_broken_at_header :
    (∀ m ∈ [bareMessage 1, bareMessage 2], WellFormed messageFormat m ∧ 24 ≤ m.length) ∧
    [(bareMessage 1).take 8, (bareMessage 1).drop 8 ++ bareMessage 2].flatten =
      [bareMessage 1, bareMessage 2].flatten ∧
    ¬ (final inputStep InputRun.start
        [(bareMessage 1).take 8, (bareMessage 1).drop 8 ++ bareMessage 2]).frames <+:
      [bareMessage 1, bareMessage 2] := by
  refine ⟨?_, by decide, by decide⟩
  intro m hm
  rcases List.mem_cons.mp hm with rfl | hm
  · exact ⟨bareMessage_wellFormed 1, by decide⟩
  · rw [List.mem_singleton.mp hm]
    exact ⟨bareMessage_wellFormed 2, by decide⟩

-- ---------------------------------------------------------------------------
-- Framing completeness
-- ---------------------------------------------------------------------------

/-- No complete and no unsatisfiable frame is left in the buffer. -/
def NothingWaits (s : InputRun) : Prop := Drained messageFormat s.conn.buffered

instance (s : InputRun) : Decidable (NothingWaits s) :=
  inferInstanceAs (Decidable (Drained _ _))

/-- The bytes available to `messageFunc` hold at most one complete frame, and the
header in front declares at least its own 8 bytes. -/
structure AtMostOneFrame (s : InputRun) (chunk : Bytes) : Prop where
  declares_header : messageLengthSize ≤ (s.conn.buffered ++ chunk).length →
    messageLengthSize ≤ messageFormat.declared (s.conn.buffered ++ chunk)
  nothing_behind : ∀ f rest,
    next messageFormat (s.conn.buffered ++ chunk) = some (f, rest) → Drained messageFormat rest

theorem nothingWaits_step_iff {s : InputRun} {chunk : Bytes} (hPeek : PeekSafe s chunk) :
    NothingWaits (inputStep s chunk) ↔ AtMostOneFrame s chunk := by
  unfold NothingWaits
  cases hNext : next messageFormat (s.conn.buffered ++ chunk) with
  | none =>
    obtain ⟨-, hBuf⟩ := inputStep_wait hPeek hNext
    rw [hBuf]
    constructor
    · -- a short header would neither be drained nor be cut off
      intro hDrained
      refine ⟨?_, ?_⟩
      · intro hHeader
        rcases hDrained with hShort | hMissing
        · exact absurd hHeader (Nat.not_le.mpr hShort)
        · exact le_of_lt (lt_of_le_of_lt hHeader hMissing)
      · intro f rest h
        rw [hNext] at h
        exact absurd h (by simp)
    · intro h
      exact drained_of_next_none hNext h.declares_header
  | some cut =>
    -- one frame is taken, so what counts is what stands behind it
    obtain ⟨f, rest⟩ := cut
    obtain ⟨-, hBuf⟩ := inputStep_frame hPeek hNext
    rw [hBuf]
    constructor
    · intro hDrained
      refine ⟨?_, ?_⟩
      · intro _
        exact next_declared hNext
      · intro f' rest' h
        rw [hNext, Option.some.injEq, Prod.mk.injEq] at h
        exact h.2 ▸ hDrained
    · intro h
      exact h.nothing_behind f rest hNext

/-- The condition on one run: at most one frame for it, or, where the peek moves a
header out, no frame and no short header behind what that header announces. -/
def LeavesNothing (s : InputRun) (chunk : Bytes) : Prop :=
  if s.conn.mIncompleteMessage.length = messageLengthSize then
    Drained messageFormat
      (behindHeader s.conn.mIncompleteMessage (s.conn.mInputBuffer.queued ++ chunk)).2
  else
    AtMostOneFrame s chunk

theorem leavesNothing_step_iff (s : InputRun) (chunk : Bytes) :
    NothingWaits (inputStep s chunk) ↔ LeavesNothing s chunk := by
  unfold LeavesNothing
  split
  · rename_i hPeek
    have hLost := readFrame_header_lost (c := s.conn.deliver chunk) hPeek
    have hLeft : (inputStep s chunk).conn.buffered =
        (behindHeader s.conn.mIncompleteMessage (s.conn.deliver chunk).mInputBuffer.queued).2 :=
      congrArg Prod.snd hLost
    have hQueued : (s.conn.deliver chunk).mInputBuffer.queued =
        s.conn.mInputBuffer.queued ++ chunk := IOBuffer.put_queued ..
    rw [NothingWaits, hLeft, hQueued]
  · rename_i hPeek
    exact nothingWaits_step_iff hPeek

/--
**Framing completeness.** For every byte stream and every chunking: after every chunk
nothing complete or unsatisfiable is left in the buffer, exactly if each chunk
completes at most one frame and no header in front declares fewer than 8 bytes, with
the frame counted behind the header where the peek moves one out.
-/
theorem framing_drained_iff (chunks : List Bytes) :
    Always inputStep NothingWaits InputRun.start chunks ↔
      Each inputStep LeavesNothing InputRun.start chunks :=
  always_iff_each (fun _ _ => True) (fun _ _ _ _ _ _ => trivial)
    (fun s chunk _ _ _ => leavesNothing_step_iff s chunk) (drained_nil (by decide)) trivial

/-- Two messages in one chunk leave the second waiting; a header that declares 0
bytes waits, too, until the peek of the next run moves it out and drops it. -/
theorem framing_not_drained :
    ¬ Always inputStep NothingWaits InputRun.start [bareMessage 1 ++ bareMessage 2] ∧
    ¬ Always inputStep NothingWaits InputRun.start [LittleEndian.encode 8 0] :=
  ⟨fun h => absurd h.final (by decide), fun h => absurd h.final (by decide)⟩

end WarringServer.Server
