import WarringServer.Net.InputBuffer
import WarringServer.Net.Output
import WarringServer.Server.ReadFrame
import WarringServer.Server.Reuse

/-!
# Messages from clients to a loop thread

One event loop thread serves any number of connections, with one table of prototypes for all of
them. At the other end of a connection is a client whose `TcpConnection` the messages are
submitted to; between the two are the bytes that the kernel of the client has taken and
that of the server has not handed out. The step relation takes the calls of the clients and
the reads of the thread in any order, with writes that are short or fail and reads of any size.

Meant as one queue of messages for each connection: `Link.Intact` says that what the thread has
handled are the first messages as they were sent, and that the bytes on their way are the frames
of the rest.

* `intact_iff` — every connection is such a queue throughout a run exactly if no write
  is short with strings queued behind it, none fails with bytes at hand, and
  no read finds just a header in `mIncompleteMessage`;
* `complete_iff` — and nothing is left behind when a connection falls silent, exactly if also
  no read that takes the last bytes completes more than one frame.

The sizes of the input buffer need no condition: only a read of 0 bytes lets `mData` and `mCurrSize`
differ, and such a read closes the connection.
-/

namespace WarringServer.Server

open Framing Message Net Run

-- ---------------------------------------------------------------------------
-- Writes
-- ---------------------------------------------------------------------------

/-- Accepted bytes and queue together still read as the string handed to `::write` and the
strings behind it. -/
def Whole (a : Attempt) : Prop :=
  a.socket.accepted a.given ++ a.behind.flatten ++ a.socket.requeued a.given =
    a.given ++ a.behind.flatten

instance (a : Attempt) : Decidable (Whole a) := inferInstanceAs (Decidable (_ = _))

/-- The two ways in which a write does harm: the rest of a short write goes behind younger
strings, and what a failing write was given is gone. -/
theorem whole_iff (a : Attempt) :
    Whole a ↔ (a.socket = .wouldBlock → a.given = []) ∧ a.RestCommutes := by
  obtain ⟨k, given, behind⟩ := a
  unfold Whole Attempt.RestCommutes
  cases k with
  | wouldBlock =>
    simp only [SocketWrite.accepted, SocketWrite.requeued, List.nil_append, List.append_nil,
      forall_const, and_true]
    exact List.self_eq_append_left
  | room n =>
    simp only [reduceCtorEq, false_implies, true_and]
    -- the accepted part stands in front on either side
    conv_lhs => rhs; rw [← accepted_append_requeued n given]
    rw [List.append_assoc, List.append_assoc, List.append_cancel_left_eq]
    exact eq_comm

-- ---------------------------------------------------------------------------
-- The machine
-- ---------------------------------------------------------------------------

variable {server : ServerKind}

/-- What `count` and `serialize` make of the sender's object. -/
def HonestMessage.frame (m : HonestMessage server) : Bytes := wire m.msgName m.members

/-- What a client does with its connection. -/
inductive ClientCall (server : ServerKind) where
  | send (k : SocketWrite) (m : HonestMessage server)
  | putToBuffer (m : HonestMessage server)
  | writable (k : SocketWrite)

namespace ClientCall

def output : ClientCall server → OutputEvent
  | .send k m => .send k m.frame
  | .putToBuffer m => .putToBuffer m.frame
  | .writable k => .writable k

def submitted : ClientCall server → List (HonestMessage server)
  | .send _ m => [m]
  | .putToBuffer m => [m]
  | .writable _ => []

theorem submits_output (c : ClientCall server) :
    c.output.submits = (c.submitted.map HonestMessage.frame).flatten := by
  cases c <;> simp [output, submitted, OutputEvent.submits]

end ClientCall

/-- The connection of a client, the bytes between the two kernels, and the connection of the
server. `sent` are the messages submitted, `handled` what has become of the frames that were
taken. -/
structure Link (server : ServerKind) where
  client : TcpConnection
  inFlight : Bytes
  conn : TcpConnection
  sent : List (HonestMessage server)
  handled : List (Except DecodeFault Dispatched)

namespace Link

/-- Behind `connect` and `accept`. -/
def create : Link server := ⟨TcpConnection.create, [], TcpConnection.create, [], []⟩

/-- The output side of the client. -/
def output (l : Link server) : OutputRun := ⟨l.client, l.inFlight, []⟩

def call (l : Link server) (c : ClientCall server) : Link server :=
  let out := outputStep l.output c.output
  { l with client := out.conn, inFlight := out.accepted, sent := l.sent ++ c.submitted }

/-- What the kernel hands to a read that has room for `n` bytes. -/
def arriving (l : Link server) (n : Nat) : Option Bytes :=
  if l.inFlight.take n = [] then none else some (l.inFlight.take n)

/-- `messageFunc` up to the `deserialize` of the prototype. -/
def messageFunc (l : Link server) (mMessageTypes : MessageTypes) : Link server × MessageTypes :=
  match readFrame l.conn with
  | (none, conn) => ({ l with conn := conn }, mMessageTypes)
  | (some msg, conn) =>
      match dispatch mMessageTypes msg with
      | .ok (d, mMessageTypes) =>
          ({ l with conn := conn, handled := l.handled ++ [.ok d] }, mMessageTypes)
      | .error fault =>
          ({ l with conn := conn, handled := l.handled ++ [.error fault] }, mMessageTypes)

/-- `readFunc`. As long as the client does not close, no read returns 0. -/
def readFunc (l : Link server) (mMessageTypes : MessageTypes) (n : Nat) :
    Link server × MessageTypes :=
  match l.conn.readFunc (l.arriving n) with
  | (.messageFunc, conn) =>
      { l with conn := conn, inFlight := l.inFlight.drop n }.messageFunc mMessageTypes
  | (_, conn) => ({ l with conn := conn }, mMessageTypes)

end Link

/-- The connections of one event loop and the prototypes registered for its thread. -/
structure LoopThread (server : ServerKind) where
  links : List (Link server)
  mMessageTypes : MessageTypes

inductive TrafficEvent (server : ServerKind) where
  | connect
  | client (i : Nat) (c : ClientCall server)
  /-- Connection `i` is readable, and the read has room for `n` bytes. -/
  | readable (i : Nat) (n : Nat)

namespace LoopThread

def start (server : ServerKind) : LoopThread server := ⟨[], server.messageTypes⟩

def step (s : LoopThread server) : TrafficEvent server → LoopThread server
  | .connect => { s with links := s.links ++ [Link.create] }
  | .client i c => { s with links := s.links.modify i (·.call c) }
  | .readable i n =>
      match s.links[i]? with
      | none => s
      | some l =>
          let (l, mMessageTypes) := l.readFunc s.mMessageTypes n
          ⟨s.links.set i l, mMessageTypes⟩

end LoopThread

-- ---------------------------------------------------------------------------
-- The queue of a connection
-- ---------------------------------------------------------------------------

namespace Link

/-- The messages that are not handled yet. -/
def pending (l : Link server) : List (HonestMessage server) := l.sent.drop l.handled.length

/-- The bytes between the first call of the client and the last frame of the server. -/
def stream (l : Link server) : Bytes :=
  l.conn.buffered ++ l.inFlight ++ l.client.mOutputBuffer.queued

/-- **A queue of messages.** What is handled are the first messages sent, each by the prototype of
its class and with the members it was sent with; the bytes on their way are the frames of
the others. -/
structure Intact (l : Link server) : Prop where
  handled : List.Forall₂ (fun m r => ∃ d, r = .ok d ∧ m.Delivered d)
    (l.sent.take l.handled.length) l.handled
  stream : l.stream = (l.pending.map HonestMessage.frame).flatten

/-- `mData` has the size in force. -/
structure Sized (l : Link server) : Prop where
  bounded : l.conn.mInputBuffer.sizes.Bounded
  exact : l.conn.mInputBuffer.sizes.data = l.conn.mInputBuffer.sizes.mCurrSize

/-- The condition on a call of the client. -/
def WritesWhole (l : Link server) (c : ClientCall server) : Prop :=
  ∀ a, l.output.attempt c.output = some a → Whole a

/-- The condition on a read: if it gets any bytes, `messageFunc` does not start with just a
header in `mIncompleteMessage`. -/
def ReadsSafely (l : Link server) (n : Nat) : Prop :=
  l.inFlight.take n ≠ [] → l.conn.mIncompleteMessage.length ≠ messageLengthSize

theorem intact_create : (create : Link server).Intact := ⟨.nil, rfl⟩

theorem sized_create : (create : Link server).Sized :=
  ⟨InputRun.start_sized.bounded, List.length_replicate⟩

section

variable {l : Link server}

theorem Intact.length_le (h : l.Intact) : l.handled.length ≤ l.sent.length := by
  have hLen := h.handled.length_eq
  rw [List.length_take] at hLen
  omega

/-- The oldest message is handled. -/
theorem pending_handled {m : HonestMessage server} {ms : List (HonestMessage server)}
    (h : l.pending = m :: ms) :
    l.sent.drop (l.handled.length + 1) = ms ∧
      l.sent.take (l.handled.length + 1) = l.sent.take l.handled.length ++ [m] := by
  have hHead : l.sent[l.handled.length]? = some m := by
    have hDrop := congrArg List.head? h
    rwa [pending, List.head?_drop, List.head?_cons] at hDrop
  refine ⟨?_, ?_⟩
  · rw [← List.tail_drop, show l.sent.drop l.handled.length = m :: ms from h, List.tail_cons]
  · rw [List.take_add_one, hHead]
    rfl

end

end Link

-- ---------------------------------------------------------------------------
-- Calls of a client
-- ---------------------------------------------------------------------------

namespace Link

section

variable {l : Link server} {c : ClientCall server}

theorem pending_call (hLen : l.handled.length ≤ l.sent.length) :
    (l.call c).pending = l.pending ++ c.submitted :=
  List.drop_append_of_le_length hLen

/-- What a call leaves between the client and the server, in terms of its write. -/
theorem stream_call (l : Link server) (c : ClientCall server) :
    (l.call c).stream = l.stream ++ c.output.submits ↔ l.WritesWhole c := by
  obtain ⟨-, hQuiet, hWrote⟩ := outputStep_spec l.output c.output
  have hHeld : (outputStep l.output c.output).held = (l.call c).client.mOutputBuffer.queued := rfl
  have hAccepted : (outputStep l.output c.output).accepted = (l.call c).inFlight := rfl
  have hConn : (l.call c).conn = l.conn := rfl
  unfold stream WritesWhole
  rw [hHeld, hAccepted] at hQuiet hWrote
  cases ha : l.output.attempt c.output with
  | none =>
    obtain ⟨hAcc, hRest⟩ := hQuiet ha
    rw [hAcc, hRest, hConn]
    refine iff_of_true ?_ fun _ h => absurd h (by simp)
    simp only [List.append_assoc]
    rfl
  | some a =>
    obtain ⟨late, hAll, hAcc, hRest⟩ := hWrote a ha
    have hBefore : l.conn.buffered ++ l.inFlight ++ l.client.mOutputBuffer.queued ++
        c.output.submits =
          l.conn.buffered ++ l.inFlight ++ (a.given ++ a.behind.flatten) ++ late := by
      rw [List.append_assoc _ l.client.mOutputBuffer.queued, List.append_assoc _ _ late]
      exact congrArg (l.conn.buffered ++ l.inFlight ++ ·) hAll
    have hAfter : (l.call c).conn.buffered ++ (l.call c).inFlight ++
        (l.call c).client.mOutputBuffer.queued =
          l.conn.buffered ++ l.inFlight ++ (a.socket.accepted a.given ++ a.behind.flatten ++
            a.socket.requeued a.given) ++ late := by
      rw [hConn, hAcc, hRest]
      simp only [List.append_assoc]
      rfl
    rw [hBefore, hAfter, List.append_cancel_right_eq, List.append_cancel_left_eq]
    simp only [Option.some.injEq, forall_eq']
    exact Iff.rfl

theorem intact_call_iff (h : l.Intact) : (l.call c).Intact ↔ l.WritesWhole c := by
  have hPending := pending_call (c := c) h.length_le
  have hStream : (l.pending.map HonestMessage.frame).flatten ++ c.output.submits =
      (((l.call c).pending).map HonestMessage.frame).flatten := by
    rw [hPending, c.submits_output, List.map_append, List.flatten_append]
  rw [← stream_call, h.stream, hStream]
  refine ⟨Intact.stream, fun hAfter => ⟨?_, hAfter⟩⟩
  -- a call handles nothing
  show List.Forall₂ _ ((l.sent ++ c.submitted).take l.handled.length) l.handled
  rw [List.take_append_of_le_length h.length_le]
  exact h.handled

end

end Link

-- ---------------------------------------------------------------------------
-- Reads of the thread
-- ---------------------------------------------------------------------------

theorem HonestMessage.frame_wellFormed (m : HonestMessage server) :
    WellFormed messageFormat m.frame := by
  have hLen : m.frame.length = wireLength m.msgName m.members := wire_length _ _
  refine ⟨?_, (wire_take m.size_lt).trans hLen.symm⟩
  show 8 ≤ m.frame.length
  rw [hLen, wireLength]
  omega

/-- `tryGet` moves strings; the sizes of the buffer are those of the last read. -/
theorem tryGet_sizes (c : TcpConnection) (len : Nat) (takeAway : Bool) :
    (c.tryGet len takeAway).2.mInputBuffer.sizes = c.mInputBuffer.sizes := by
  have hLen : (c.tryGetLen len takeAway).2.mInputBuffer.sizes = c.mInputBuffer.sizes := by
    unfold TcpConnection.tryGetLen
    split
    · rfl
    · split
      · split <;> rfl
      · rfl
  unfold TcpConnection.tryGet
  split
  · rename_i result hOldest
    split at hOldest
    · unfold TcpConnection.tryGetOldest at hOldest
      split at hOldest
      · split at hOldest
        · rename_i msg input hGet
          obtain rfl := Option.some.inj hOldest
          show input.sizes = _
          unfold IOBuffer.get at hGet
          split at hGet
          · cases hGet
          · rw [Prod.mk.injEq] at hGet
            rw [← hGet.2]
            rfl
        · cases hOldest
      · split at hOldest <;> obtain rfl := Option.some.inj hOldest <;> rfl
    · cases hOldest
  · exact hLen

theorem readFrame_sizes (c : TcpConnection) :
    (readFrame c).2.mInputBuffer.sizes = c.mInputBuffer.sizes := by
  have hPeek := tryGet_sizes c messageLengthSize false
  unfold readFrame
  dsimp only
  split
  · exact hPeek
  · split
    · split <;> exact (tryGet_sizes _ _ true).trans hPeek
    · exact hPeek

namespace Link

section

variable {l : Link server} {types : MessageTypes}

theorem messageFunc_conn (l : Link server) (types : MessageTypes) :
    (l.messageFunc types).1.conn = (readFrame l.conn).2 := by
  unfold messageFunc
  rcases readFrame l.conn with ⟨_ | msg, conn⟩
  · rfl
  · dsimp only
    split <;> rfl

/-- What of a link `messageFunc` leaves as it is. -/
theorem messageFunc_frame (l : Link server) (types : MessageTypes) :
    (l.messageFunc types).1.client = l.client ∧ (l.messageFunc types).1.inFlight = l.inFlight ∧
      (l.messageFunc types).1.sent = l.sent := by
  unfold messageFunc
  rcases readFrame l.conn with ⟨_ | msg, conn⟩
  · exact ⟨rfl, rfl, rfl⟩
  · dsimp only
    split <;> exact ⟨rfl, rfl, rfl⟩

/-- The buffered bytes are where the frames of the pending messages begin. -/
theorem Intact.buffered_prefix (h : l.Intact) :
    l.conn.buffered <+: (l.pending.map HonestMessage.frame).flatten := by
  rw [← h.stream, Link.stream, List.append_assoc]
  exact List.prefix_append _ _

/-- **`messageFunc` takes the oldest pending message**, once its frame is complete, and hands
it to the prototype of its class. -/
theorem messageFunc_spec (h : l.Intact) (hServes : Serves server types)
    (hPeek : l.conn.mIncompleteMessage.length ≠ messageLengthSize) :
    (next messageFormat l.conn.buffered = none ∧
      l.messageFunc types = ({ l with conn := (readFrame l.conn).2 }, types) ∧
      (readFrame l.conn).2.buffered = l.conn.buffered) ∨
    ∃ m ms rest d types', l.pending = m :: ms ∧
      next messageFormat l.conn.buffered = some (m.frame, rest) ∧
      dispatch types m.frame = .ok (d, types') ∧ m.Delivered d ∧ Serves server types' ∧
      l.messageFunc types =
        ({ l with conn := (readFrame l.conn).2, handled := l.handled ++ [.ok d] }, types') ∧
      (readFrame l.conn).2.buffered = rest := by
  obtain ⟨hFrame, hRest⟩ := readFrame_spec hPeek
  cases hNext : next messageFormat l.conn.buffered with
  | none =>
    rw [hNext] at hFrame hRest
    refine Or.inl ⟨rfl, ?_, hRest⟩
    unfold messageFunc
    rcases hRead : readFrame l.conn with ⟨frame, conn⟩
    obtain rfl : frame = none := by rw [hRead] at hFrame; exact hFrame
    rfl
  | some cut =>
    obtain ⟨f, rest⟩ := cut
    rw [hNext] at hFrame hRest
    have hPrefix := h.buffered_prefix
    rcases hPending : l.pending with _ | ⟨m, ms⟩
    · -- nothing is on its way
      rw [hPending] at hPrefix
      rw [next_of_prefix_nil (by decide) hPrefix] at hNext
      exact absurd hNext (by simp)
    · rw [hPending, List.map_cons] at hPrefix
      obtain ⟨rfl, -⟩ := next_of_prefix m.frame_wellFormed hPrefix hNext
      obtain ⟨d, types', hDispatch, hDelivered, hServes'⟩ := dispatch_honest hServes m
      refine Or.inr ⟨m, ms, rest, d, types', rfl, rfl, hDispatch, hDelivered, hServes', ?_, hRest⟩
      unfold messageFunc
      rcases hRead : readFrame l.conn with ⟨frame, conn⟩
      obtain rfl : frame = some m.frame := by rw [hRead] at hFrame; exact hFrame
      dsimp only
      rw [show dispatch types m.frame = .ok (d, types') from hDispatch]

/-- A message that is handled leaves the queue at its front. -/
theorem Intact.handle (h : l.Intact) {m : HonestMessage server} {ms : List (HonestMessage server)}
    (hPending : l.pending = m :: ms) {conn : TcpConnection} {d : Dispatched}
    (hDelivered : m.Delivered d)
    (hBuffered : l.conn.buffered = m.frame ++ conn.buffered) :
    ({ l with conn := conn, handled := l.handled ++ [.ok d] } : Link server).Intact := by
  obtain ⟨hDrop, hTake⟩ := pending_handled hPending
  have hLen : (l.handled ++ [Except.ok d]).length = l.handled.length + 1 := List.length_append
  have hStream := h.stream
  refine ⟨?_, ?_⟩
  · show List.Forall₂ _ (l.sent.take (l.handled ++ [Except.ok d]).length) (l.handled ++ [.ok d])
    rw [hLen, hTake]
    exact List.rel_append h.handled (.cons ⟨d, rfl, hDelivered⟩ .nil)
  · show conn.buffered ++ l.inFlight ++ l.client.mOutputBuffer.queued =
      ((l.sent.drop (l.handled ++ [Except.ok d]).length).map HonestMessage.frame).flatten
    rw [hLen, hDrop]
    rw [Link.stream, hBuffered, hPending, List.map_cons, List.flatten_cons] at hStream
    simp only [List.append_assoc, List.append_cancel_left_eq] at hStream ⊢
    exact hStream

theorem Intact.messageFunc (h : l.Intact) (hServes : Serves server types)
    (hPeek : l.conn.mIncompleteMessage.length ≠ messageLengthSize) :
    (l.messageFunc types).1.Intact ∧ Serves server (l.messageFunc types).2 := by
  rcases messageFunc_spec h hServes hPeek with ⟨-, hRun, hSame⟩ |
    ⟨m, ms, rest, d, types', hPending, hNext, -, hDelivered, hServes', hRun, hRest⟩
  · rw [hRun]
    refine ⟨⟨h.handled, ?_⟩, hServes⟩
    refine Eq.trans ?_ h.stream
    exact congrArg (· ++ l.inFlight ++ l.client.mOutputBuffer.queued) hSame
  · rw [hRun]
    refine ⟨h.handle hPending hDelivered ?_, hServes'⟩
    rw [hRest]
    exact next_append hNext

theorem messageFunc_handled (l : Link server) (types : MessageTypes) :
    (l.messageFunc types).1.handled.length =
      l.handled.length + (readFrame l.conn).1.toList.length := by
  unfold Link.messageFunc
  rcases readFrame l.conn with ⟨_ | msg, conn⟩
  · rfl
  · dsimp only
    split <;> exact List.length_append

/-- All of what the lost header announces is taken, or nothing. -/
theorem behindHeader_taken (header stream : Bytes) :
    (behindHeader header stream).1.length = 0 ∨
      (behindHeader header stream).1.length = LittleEndian.decode header := by
  unfold behindHeader takeFront
  split
  · split
    · rename_i hFits
      exact Or.inr (by rw [List.length_take]; omega)
    · exact Or.inl rfl
  · exact Or.inl rfl

/-- A header in `mIncompleteMessage` is that of the oldest pending message. -/
theorem Intact.header (h : l.Intact) (hEight : l.conn.mIncompleteMessage.length = messageLengthSize) :
    ∃ m ms, l.pending = m :: ms ∧
      LittleEndian.decode l.conn.mIncompleteMessage = m.frame.length := by
  obtain ⟨tail, hTail⟩ := h.buffered_prefix
  rw [TcpConnection.buffered, List.append_assoc] at hTail
  rcases hPending : l.pending with _ | ⟨m, ms⟩
  · rw [hPending] at hTail
    have hNil := (List.append_eq_nil_iff.mp hTail).1
    rw [hNil] at hEight
    cases hEight
  · refine ⟨m, ms, rfl, ?_⟩
    rw [hPending, List.map_cons, List.flatten_cons] at hTail
    have hDeclared := congrArg messageFormat.declared hTail
    rw [messageFormat.declared_append _ _ m.frame_wellFormed.header_le,
      m.frame_wellFormed.declared_eq,
      messageFormat.declared_append _ _ (Nat.le_of_eq hEight.symm)] at hDeclared
    rw [← hDeclared]
    show _ = LittleEndian.decode (l.conn.mIncompleteMessage.take messageLengthSize)
    rw [← hEight, List.take_length]

/-- **A header lost by the peek** is missing from then on. -/
theorem not_intact_of_header (h : l.Intact)
    (hEight : l.conn.mIncompleteMessage.length = messageLengthSize) :
    ¬ (l.messageFunc types).1.Intact := by
  intro hAfter
  obtain ⟨m, ms, hPending, hDecode⟩ := h.header hEight
  have hLost := readFrame_header_lost hEight
  have hTaken := congrArg (List.length ∘ Prod.fst) hLost
  have hLeft := congrArg (List.length ∘ Prod.snd) hLost
  have hSplit := behindHeader_length l.conn.mIncompleteMessage l.conn.mInputBuffer.queued
  have hAll := behindHeader_taken l.conn.mIncompleteMessage l.conn.mInputBuffer.queued
  have hHandled := messageFunc_handled l types
  obtain ⟨hClient, hFlight, hSent⟩ := messageFunc_frame l types
  -- counting the bytes before and after
  have hBefore := congrArg List.length h.stream
  have hNow := congrArg List.length hAfter.stream
  rw [Link.stream, messageFunc_conn, hClient, hFlight] at hNow
  rw [Link.stream, TcpConnection.buffered, hPending, List.map_cons, List.flatten_cons] at hBefore
  have hFrame : 16 ≤ m.frame.length := by
    show 16 ≤ (wire m.msgName m.members).length
    rw [wire_length, wireLength]
    omega
  have hEightLen : messageLengthSize = 8 := rfl
  simp only [Function.comp_apply, List.length_append] at hTaken hLeft hBefore hNow
  cases hRead : (readFrame l.conn).1 with
  | none =>
    -- the message is still pending, and 8 of its bytes are gone
    have hSame : (l.messageFunc types).1.pending = m :: ms := by
      rw [← hPending, Link.pending, hSent, hHandled, hRead]
      rfl
    rw [hSame, List.map_cons, List.flatten_cons, List.length_append] at hNow
    rw [hRead] at hTaken
    rw [Option.getD_none, List.length_nil] at hTaken
    omega
  | some msg =>
    -- it is handled, with 8 bytes that are not its own
    have hRest : (l.messageFunc types).1.pending = ms := by
      rw [Link.pending, hSent, hHandled, hRead]
      exact (pending_handled hPending).1
    rw [hRest] at hNow
    rw [hRead, Option.getD_some] at hTaken
    omega

theorem intact_messageFunc_iff (h : l.Intact) (hServes : Serves server types) :
    (l.messageFunc types).1.Intact ↔ l.conn.mIncompleteMessage.length ≠ messageLengthSize :=
  ⟨fun hAfter hEight => not_intact_of_header h hEight hAfter,
    fun hPeek => (h.messageFunc hServes hPeek).1⟩

-- ---------------------------------------------------------------------------
-- The bytes of a read
-- ---------------------------------------------------------------------------

/-- The link when `messageFunc` is called: the bytes of the read are in the buffer. -/
def received (l : Link server) (n : Nat) : Link server :=
  { l with conn := (l.conn.readFunc (some (l.inFlight.take n))).2, inFlight := l.inFlight.drop n }

theorem readFunc_nothing {n : Nat} (hNone : l.inFlight.take n = []) :
    l.readFunc types n = (l, types) := by
  unfold Link.readFunc arriving
  rw [if_pos hNone]
  rfl

theorem Sized.init_pos (h : l.Sized) : 0 < l.conn.mInputBuffer.mCurrSize :=
  Nat.lt_of_lt_of_le (by decide) h.bounded.init_le

theorem readFunc_some (types : MessageTypes) {n : Nat} (hSized : l.Sized)
    (hSome : l.inFlight.take n ≠ []) :
    l.readFunc types n = (l.received n).messageFunc types ∧
      (l.received n).conn.mIncompleteMessage = l.conn.mIncompleteMessage ∧
      (l.received n).conn.buffered = l.conn.buffered ++ l.inFlight.take n := by
  obtain ⟨hCallback, hIncomplete, hBuffered⟩ :=
    TcpConnection.readFunc_delivers hSized.exact hSized.init_pos hSome
  refine ⟨?_, hIncomplete, hBuffered.trans (TcpConnection.deliver_buffered _ _)⟩
  unfold Link.readFunc arriving received
  rw [if_neg hSome]
  rcases hRead : l.conn.readFunc (some (l.inFlight.take n)) with ⟨callback, conn⟩
  rw [hRead] at hCallback
  obtain rfl : callback = .messageFunc := hCallback
  rfl

theorem Intact.received {n : Nat} (h : l.Intact) (hSized : l.Sized)
    (hSome : l.inFlight.take n ≠ []) : (l.received n).Intact := by
  refine ⟨h.handled, Eq.trans ?_ h.stream⟩
  obtain ⟨-, -, hBuffered⟩ := readFunc_some (fun _ => none) hSized hSome
  show (l.received n).conn.buffered ++ l.inFlight.drop n ++ l.client.mOutputBuffer.queued =
    l.conn.buffered ++ l.inFlight ++ l.client.mOutputBuffer.queued
  rw [hBuffered, List.append_assoc l.conn.buffered, List.take_append_drop]

theorem intact_readFunc_iff (n : Nat) (h : l.Intact) (hSized : l.Sized)
    (hServes : Serves server types) :
    (l.readFunc types n).1.Intact ↔ l.ReadsSafely n := by
  unfold ReadsSafely
  by_cases hSome : l.inFlight.take n = []
  · rw [readFunc_nothing hSome]
    exact iff_of_true h fun hNot => absurd hSome hNot
  · obtain ⟨hRun, hIncomplete, -⟩ := readFunc_some types hSized hSome
    rw [hRun, intact_messageFunc_iff (h.received hSized hSome) hServes, hIncomplete]
    exact ⟨fun hPeek _ => hPeek, fun hPeek => hPeek hSome⟩

theorem serves_readFunc {n : Nat} (h : l.Intact) (hSized : l.Sized)
    (hServes : Serves server types) (hReads : l.ReadsSafely n) :
    Serves server (l.readFunc types n).2 := by
  by_cases hSome : l.inFlight.take n = []
  · rw [readFunc_nothing hSome]
    exact hServes
  · obtain ⟨hRun, hIncomplete, -⟩ := readFunc_some types hSized hSome
    rw [hRun]
    refine ((h.received hSized hSome).messageFunc hServes ?_).2
    rw [hIncomplete]
    exact hReads hSome

/-- **The sizes need no condition.** -/
theorem Sized.readFunc (h : l.Sized) (types : MessageTypes) (n : Nat) :
    (l.readFunc types n).1.Sized := by
  by_cases hSome : l.inFlight.take n = []
  · rw [readFunc_nothing hSome]
    exact h
  · obtain ⟨hRun, -, -⟩ := readFunc_some types h hSome
    have hLen : 0 < (l.inFlight.take n).length := List.length_pos_of_ne_nil hSome
    have hSizes : (l.readFunc types n).1.conn.mInputBuffer.sizes =
        l.conn.mInputBuffer.sizes.read (l.inFlight.take n).length := by
      rw [hRun, messageFunc_conn, readFrame_sizes, ← IOBuffer.read_sizes h.init_pos]
      unfold Link.received TcpConnection.readFunc
      dsimp only
      split
      · rfl
      · split <;> rfl
    refine ⟨?_, ?_⟩ <;> rw [hSizes]
    · exact h.bounded.read _
    · exact if_pos hLen

end

end Link

-- ---------------------------------------------------------------------------
-- Runs of the thread
-- ---------------------------------------------------------------------------

namespace LoopThread

/-- Every connection is a queue of messages. -/
def Intact (s : LoopThread server) : Prop := ∀ l ∈ s.links, l.Intact

/-- What holds of the thread at its side of the connections. -/
structure Ready (s : LoopThread server) : Prop where
  sized : ∀ l ∈ s.links, l.Sized
  serves : Serves server s.mMessageTypes

/-- The condition on a step. -/
def Unharmed (s : LoopThread server) : TrafficEvent server → Prop
  | .connect => True
  | .client i c => ∀ l, s.links[i]? = some l → l.WritesWhole c
  | .readable i n => ∀ l, s.links[i]? = some l → l.ReadsSafely n

section

variable {s : LoopThread server}

theorem step_readable {i n : Nat} {l : Link server} (hl : s.links[i]? = some l) :
    s.step (.readable i n) =
      ⟨s.links.set i (l.readFunc s.mMessageTypes n).1, (l.readFunc s.mMessageTypes n).2⟩ := by
  rw [step, hl]

theorem step_readable_none {i n : Nat} (hl : s.links[i]? = none) : s.step (.readable i n) = s := by
  rw [step, hl]

/-- A property of all links behind a step that changes one of them. -/
theorem forall_set_iff {P : Link server → Prop} {links : List (Link server)} {i : Nat}
    {l l' : Link server} (hl : links[i]? = some l) (hAll : ∀ l ∈ links, P l) :
    (∀ l ∈ links.set i l', P l) ↔ P l' := by
  obtain ⟨hi, -⟩ := List.getElem?_eq_some_iff.mp hl
  refine ⟨fun h => h l' (List.mem_set hi _), fun h l₁ hl₁ => ?_⟩
  rcases List.mem_or_eq_of_mem_set hl₁ with hOld | rfl
  · exact hAll l₁ hOld
  · exact h

theorem modify_eq {links : List (Link server)} {i : Nat} {l : Link server} (hl : links[i]? = some l)
    (f : Link server → Link server) : links.modify i f = links.set i (f l) := by
  rw [List.modify_eq_set_getElem?, hl]
  rfl

theorem Ready.step (h : s.Ready) (hIntact : s.Intact) {e : TrafficEvent server}
    (he : s.Unharmed e) : (s.step e).Ready := by
  cases e with
  | connect =>
    refine ⟨fun l hl => ?_, h.serves⟩
    rcases List.mem_append.mp hl with hOld | hNew
    · exact h.sized l hOld
    · exact List.mem_singleton.mp hNew ▸ Link.sized_create
  | client i c =>
    refine ⟨?_, h.serves⟩
    show ∀ l ∈ s.links.modify i (·.call c), l.Sized
    cases hl : s.links[i]? with
    | none =>
      rw [List.modify_eq_self (List.getElem?_eq_none_iff.mp hl)]
      exact h.sized
    | some l =>
      have hSized := h.sized l (List.mem_of_getElem? hl)
      rw [modify_eq hl, forall_set_iff hl h.sized]
      exact ⟨hSized.bounded, hSized.exact⟩
  | readable i n =>
    cases hl : s.links[i]? with
    | none =>
      rw [step_readable_none hl]
      exact h
    | some l =>
      have hMem := List.mem_of_getElem? hl
      rw [step_readable hl]
      refine ⟨?_, ?_⟩
      · exact (forall_set_iff hl h.sized).mpr ((h.sized l hMem).readFunc _ n)
      · exact Link.serves_readFunc (hIntact l hMem) (h.sized l hMem) h.serves (he l hl)

/-- **One step.** -/
theorem intact_step_iff (h : s.Intact) (hReady : s.Ready) (e : TrafficEvent server) :
    (s.step e).Intact ↔ s.Unharmed e := by
  cases e with
  | connect =>
    refine iff_of_true (fun l hl => ?_) trivial
    rcases List.mem_append.mp hl with hOld | hNew
    · exact h l hOld
    · exact List.mem_singleton.mp hNew ▸ Link.intact_create
  | client i c =>
    show (∀ l ∈ s.links.modify i (·.call c), l.Intact) ↔ ∀ l, s.links[i]? = some l → l.WritesWhole c
    cases hl : s.links[i]? with
    | none =>
      rw [List.modify_eq_self (List.getElem?_eq_none_iff.mp hl)]
      exact iff_of_true h (by simp)
    | some l =>
      simp only [modify_eq hl, forall_set_iff hl h, Option.some.injEq, forall_eq']
      exact Link.intact_call_iff (h l (List.mem_of_getElem? hl))
  | readable i n =>
    show (s.step _).Intact ↔ ∀ l, s.links[i]? = some l → l.ReadsSafely n
    cases hl : s.links[i]? with
    | none =>
      rw [step_readable_none hl]
      exact iff_of_true h (by simp)
    | some l =>
      have hMem := List.mem_of_getElem? hl
      rw [step_readable hl]
      simp only [Option.some.injEq, forall_eq']
      exact (forall_set_iff hl h).trans
        (Link.intact_readFunc_iff n (h l hMem) (hReady.sized l hMem) hReady.serves)

end

theorem start_ready (server : ServerKind) : (start server).Ready :=
  ⟨fun _ hl => absurd hl List.not_mem_nil, serves_messageTypes server⟩

theorem start_intact (server : ServerKind) : (start server).Intact :=
  fun _ hl => absurd hl List.not_mem_nil

/--
**Messages arrive as they are sent.** Any number of clients submit messages of a server's
classes, and one thread reads from all of them. In every order of the steps, each connection
is at every point a queue of messages, exactly if each write of a client keeps its strings whole
and no read finds just a header in `mIncompleteMessage`.
-/
theorem intact_iff (server : ServerKind) (es : List (TrafficEvent server)) :
    Always step Intact (start server) es ↔ Each step Unharmed (start server) es :=
  always_iff_each (fun s _ => s.Ready) (fun _ _ _ hReady h he => hReady.step h he)
    (fun _ e _ hReady h => intact_step_iff h hReady e) (start_intact server) (start_ready server)

end LoopThread

-- ---------------------------------------------------------------------------
-- When a connection falls silent
-- ---------------------------------------------------------------------------

namespace Link

/-- No byte is left at the client or between the kernels. -/
def Silent (l : Link server) : Prop :=
  l.inFlight = [] ∧ l.client.mOutputBuffer.queued = []

/-- Nothing is left behind: a silent connection has no pending message. -/
def Complete (l : Link server) : Prop := l.Silent → l.pending = []

/-- The condition on a read: if it takes the last bytes, the frame they complete is the last. -/
def TakesLast (l : Link server) (n : Nat) : Prop :=
  l.inFlight.take n ≠ [] → l.inFlight.drop n = [] → l.client.mOutputBuffer.queued = [] →
    ∀ f rest, next messageFormat (l.conn.buffered ++ l.inFlight) = some (f, rest) → rest = []

theorem complete_create : (create : Link server).Complete := fun _ => rfl

/-- Frames are not empty. -/
theorem frames_eq_nil_iff {ms : List (HonestMessage server)} :
    (ms.map HonestMessage.frame).flatten = [] ↔ ms = [] := by
  refine ⟨fun h => ?_, fun h => by rw [h]; rfl⟩
  rcases ms with _ | ⟨m, ms⟩
  · rfl
  · have hNil := (List.append_eq_nil_iff.mp (List.flatten_cons ▸ h)).1
    have hLen := m.frame_wellFormed.header_le
    rw [show m.frame = [] from hNil] at hLen
    exact absurd hLen (by decide)

section

variable {l : Link server} {types : MessageTypes}

/-- What is left of a silent connection. -/
theorem Intact.silent (h : l.Intact) (hSilent : l.Silent) :
    l.conn.buffered = (l.pending.map HonestMessage.frame).flatten := by
  rw [← h.stream, Link.stream, hSilent.1, hSilent.2, List.append_nil, List.append_nil]

theorem complete_call {c : ClientCall server} (h : l.Intact) (hComplete : l.Complete)
    (hAfter : (l.call c).Intact) : (l.call c).Complete := by
  intro hSilent
  have hWhole := (stream_call l c).mpr ((intact_call_iff h).mp hAfter)
  have hConn : (l.call c).conn = l.conn := rfl
  -- everything that was on its way or is submitted has vanished, so it was nothing
  rw [Link.stream, hSilent.1, hSilent.2, hConn, Link.stream, List.append_nil, List.append_nil,
    List.append_assoc, List.append_assoc, List.self_eq_append_right, List.append_eq_nil_iff,
    List.append_eq_nil_iff] at hWhole
  obtain ⟨hFlight, hHeld, hSubmits⟩ := hWhole
  rw [c.submits_output, frames_eq_nil_iff] at hSubmits
  rw [pending_call h.length_le, hSubmits, List.append_nil]
  exact hComplete ⟨hFlight, hHeld⟩

theorem complete_messageFunc_iff (h : l.Intact) (hServes : Serves server types)
    (hPeek : l.conn.mIncompleteMessage.length ≠ messageLengthSize) :
    (l.messageFunc types).1.Complete ↔
      (l.Silent → ∀ f rest, next messageFormat l.conn.buffered = some (f, rest) → rest = []) := by
  rcases messageFunc_spec h hServes hPeek with ⟨hNext, hRun, -⟩ |
    ⟨m, ms, rest, d, types', hPending, hNext, -, -, -, hRun, -⟩
  · rw [hRun, hNext]
    refine iff_of_true (fun hSilent => ?_) (by simp)
    -- a pending message would have been found
    rcases hPending : l.pending with _ | ⟨m, ms⟩
    · exact hPending
    · rw [h.silent hSilent, hPending, List.map_cons, List.flatten_cons,
        next_wellFormed m.frame_wellFormed] at hNext
      exact absurd hNext (by simp)
  · have hRest : (l.messageFunc types).1.pending = ms := by
      rw [hRun]
      show l.sent.drop (l.handled ++ [Except.ok d]).length = ms
      rw [List.length_append]
      exact (pending_handled hPending).1
    have hSame : (l.messageFunc types).1.Silent ↔ l.Silent := by rw [hRun]; exact Iff.rfl
    unfold Complete
    rw [hSame, hRest, hNext]
    refine forall_congr' ?_
    intro hSilent
    -- the rest of the buffer are the frames of the messages behind
    have hFrames := h.silent hSilent
    rw [next_append hNext, hPending, List.map_cons, List.flatten_cons,
      List.append_cancel_left_eq] at hFrames
    simp only [Option.some.injEq, Prod.mk.injEq, and_imp, forall_apply_eq_imp_iff, forall_eq',
      hFrames, frames_eq_nil_iff]

theorem complete_readFunc_iff {n : Nat} (h : l.Intact) (hComplete : l.Complete) (hSized : l.Sized)
    (hServes : Serves server types) (hReads : l.ReadsSafely n) :
    (l.readFunc types n).1.Complete ↔ l.TakesLast n := by
  by_cases hSome : l.inFlight.take n = []
  · rw [readFunc_nothing hSome]
    exact iff_of_true hComplete fun hNot => absurd hSome hNot
  · obtain ⟨hRun, hIncomplete, hBuffered⟩ := readFunc_some types hSized hSome
    have hPeek := hReads hSome
    rw [← hIncomplete] at hPeek
    rw [hRun, complete_messageFunc_iff (h.received hSized hSome) hServes hPeek, hBuffered]
    unfold Silent TakesLast
    show (l.inFlight.drop n = [] ∧ l.client.mOutputBuffer.queued = [] → _) ↔ _
    constructor
    · intro hAll _ hDrop hHeld
      have hTake : l.inFlight.take n = l.inFlight := by
        conv_rhs => rw [← List.take_append_drop n l.inFlight, hDrop, List.append_nil]
      rw [← hTake]
      exact hAll ⟨hDrop, hHeld⟩
    · rintro hAll ⟨hDrop, hHeld⟩
      have hTake : l.inFlight.take n = l.inFlight := by
        conv_rhs => rw [← List.take_append_drop n l.inFlight, hDrop, List.append_nil]
      rw [hTake]
      exact hAll hSome hDrop hHeld

end

end Link

namespace LoopThread

/-- Every connection is a queue of messages, and none leaves a message behind. -/
def Delivers (s : LoopThread server) : Prop := ∀ l ∈ s.links, l.Intact ∧ l.Complete

/-- The condition on a step. -/
def Finishing (s : LoopThread server) : TrafficEvent server → Prop
  | .readable i n => ∀ l, s.links[i]? = some l → l.TakesLast n
  | _ => True

theorem delivers_step_iff {s : LoopThread server} (h : s.Delivers) (hReady : s.Ready)
    (e : TrafficEvent server) : (s.step e).Delivers ↔ s.Unharmed e ∧ s.Finishing e := by
  have hIntact : s.Intact := fun l hl => (h l hl).1
  cases e with
  | connect =>
    refine iff_of_true (fun l hl => ?_) ⟨trivial, trivial⟩
    rcases List.mem_append.mp hl with hOld | hNew
    · exact h l hOld
    · exact List.mem_singleton.mp hNew ▸ ⟨Link.intact_create, Link.complete_create⟩
  | client i c =>
    show (∀ l ∈ s.links.modify i (·.call c), l.Intact ∧ l.Complete) ↔
      (∀ l, s.links[i]? = some l → l.WritesWhole c) ∧ True
    cases hl : s.links[i]? with
    | none =>
      rw [List.modify_eq_self (List.getElem?_eq_none_iff.mp hl)]
      exact iff_of_true h (by simp)
    | some l =>
      obtain ⟨hl₁, hl₂⟩ := h l (List.mem_of_getElem? hl)
      simp only [modify_eq hl, forall_set_iff hl h, Option.some.injEq, forall_eq', and_true]
      rw [← Link.intact_call_iff hl₁]
      exact ⟨And.left, fun hAfter => ⟨hAfter, Link.complete_call hl₁ hl₂ hAfter⟩⟩
  | readable i n =>
    show (s.step _).Delivers ↔ (∀ l, s.links[i]? = some l → l.ReadsSafely n) ∧
      ∀ l, s.links[i]? = some l → l.TakesLast n
    cases hl : s.links[i]? with
    | none =>
      rw [step_readable_none hl]
      exact iff_of_true h (by simp)
    | some l =>
      have hMem := List.mem_of_getElem? hl
      have hSized := hReady.sized l hMem
      obtain ⟨hl₁, hl₂⟩ := h l hMem
      rw [step_readable hl]
      simp only [Option.some.injEq, forall_eq']
      refine (forall_set_iff hl h).trans ?_
      rw [Link.intact_readFunc_iff n hl₁ hSized hReady.serves]
      exact and_congr_right fun hReads =>
        Link.complete_readFunc_iff hl₁ hl₂ hSized hReady.serves hReads

/--
**And nothing is left behind.** In every order of the steps, each connection is a queue of
messages at every point and has none pending whenever it is silent, exactly if also no read
that takes the last bytes of a connection completes more than one frame: `messageFunc` takes one
frame at a time, and nothing calls it again.
-/
theorem complete_iff (server : ServerKind) (es : List (TrafficEvent server)) :
    Always step Delivers (start server) es ↔
      Each step (fun s e => s.Unharmed e ∧ s.Finishing e) (start server) es := by
  refine always_iff_each (fun s _ => s.Ready) ?_ ?_ ?_ (start_ready server)
  · intro s e _ hReady h he
    exact hReady.step (fun l hl => (h l hl).1) he.1
  · intro s e _ hReady h
    exact delivers_step_iff h hReady e
  · exact fun _ hl => absurd hl List.not_mem_nil

/-- Two heartbeats that one read brings. -/
def twoAtOnce : List (TrafficEvent .loginServer) :=
  [.connect, .client 0 (.send (.room 100) (heartbeat 1)),
    .client 0 (.send (.room 100) (heartbeat 2)), .readable 0 1024]

/-- The second one waits for ever. -/
example : ¬ Always step Delivers (start .loginServer) twoAtOnce := by
  intro h
  have hLinks : (final step (start .loginServer) twoAtOnce).links.map (fun l =>
      (l.inFlight, l.client.mOutputBuffer.queued, l.pending.length)) = [([], [], 1)] := by
    decide +kernel
  obtain ⟨l, hl, hSides⟩ := List.mem_map.mp (hLinks ▸ List.mem_singleton_self ([], [], 1))
  simp only [Prod.mk.injEq] at hSides
  have hPending := (h.final l hl).2 ⟨hSides.1, hSides.2.1⟩
  rw [hPending] at hSides
  exact absurd hSides.2.2 (by decide)

end LoopThread

end WarringServer.Server
