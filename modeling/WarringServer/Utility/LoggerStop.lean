import Mathlib.Logic.Relation
import WarringServer.Utility.ShortWrites

/-!
# Stopping the logger

`Logger::stop` ends the loop of the background thread and closes the current file. What has
not been written by then stays where it is: in a working buffer, in the filled queue, or in
the buffer that is just being archived.

The background thread and `stop` go statement by statement here. Each byte is marked with the
number of its message instead of the thread's, so that no message is taken for another one.

* `Kept` — where a message is until the file is closed;
* `Ready.work`, `Ready.push`, `Ready.fileRunning` — what each party leaves;
* `stop_flushes` — the files have every message if nothing is pending when the file is closed;
* `works_iteration` — what the background thread does by itself are `timeoutPushToFile` and
  `archive`.
-/

namespace WarringServer.Utility

open Run

-- ---------------------------------------------------------------------------
-- The two threads
-- ---------------------------------------------------------------------------

/-- Where the background thread stands: before the statement of that name. -/
inductive WorkPc where
  /-- `while (mRunning)` of `work` -/
  | loop
  /-- `if (mTimeout)` -/
  | timeout
  /-- The loop over `mThreadIDHashset`, and `resetTimeout` -/
  | lines (order : List ThreadId)
  /-- `mFilledLoggerBufferQueuePtr->waitAndPop(..)` -/
  | waitAndPop
  /-- `if (mCurrDataSize + len > mFileSizeLimite)`, in the second call of `archive` if `again` -/
  | size (unique : LoggerBuffer) (again : Bool)
  | createFile (unique : LoggerBuffer)
  /-- `while (mRunning)` of `archive` -/
  | test (unique : LoggerBuffer) (curr : Nat)
  /-- `::write(mFd, buff, remain)` -/
  | write (unique : LoggerBuffer) (curr : Nat)
  /-- `unique->reset()`, and the empty queue -/
  | recycle
  | returned

/-- Where `stop` stands. It has not been called before the first one is executed. -/
inductive StopPc where
  | cancelTimer
  /-- `mRunning = false` of the logger -/
  | running
  /-- `mRunning = false` of the file -/
  | fileRunning
  /-- `::close(mFd)` -/
  | close
  | returned
  deriving DecidableEq, Repr

/-- The logger, its two threads, and the messages pushed so far. `closed` says that `mFd` is a
descriptor that has been closed. -/
structure LoggerStop where
  logger : Logger
  messages : List (List LogByte)
  pc : WorkPc
  stop : StopPc
  closed : Bool

inductive StopEvent where
  /-- `findLoggerLine` and `pushToBuffer` of a thread. -/
  | push (tid : ThreadId) (msg : Bytes)
  | setStandbyQueueMax (num : Nat)
  | timeoutNotify
  /-- The next statement of the background thread. `order` is that of the hash set, and `n`
  what a `write` would take. -/
  | work (order : List ThreadId) (n : Nat)
  /-- The next statement of `stop`. -/
  | stop

/-- Messages are shorter than a buffer, and a `write` takes all that it is given. -/
def StopEvent.Succeeds : StopEvent → Prop
  | .push _ msg => msg.length < bufferCapacity
  | .work _ n => bufferCapacity ≤ n
  | .setStandbyQueueMax _ | .timeoutNotify | .stop => True

/-- The bytes that a successful `write` takes. -/
def takes (n remain : Nat) : Nat := if remain = 0 then 0 else max 1 (min n remain)

/-- The bytes of a message, marked with its number. -/
def stamp (number : Nat) (msg : Bytes) : List LogByte := msg.map (LogByte.mk number)

namespace LoggerStop

/-- A logger that has been initialised. -/
def start (fileSize : Nat) : LoggerStop where
  logger := Logger.create.init fileSize true
  messages := []
  pc := .loop
  stop := .cancelTimer
  closed := false

def work (s : LoggerStop) (order : List ThreadId) (n : Nat) : LoggerStop :=
  match s.pc with
  | .loop => { s with pc := if s.logger.mRunning then .timeout else .returned }
  | .timeout =>
    if s.logger.mTimeout then
      if order.Perm s.logger.mThreadIDHashset then { s with pc := .lines order } else s
    else { s with pc := .waitAndPop }
  | .lines (tid :: order) =>
    { s with logger := s.logger.onLine tid LoggerLine.pushToQueue, pc := .lines order }
  | .lines [] => { s with logger := { s.logger with mTimeout := false }, pc := .waitAndPop }
  | .waitAndPop =>
    { s with logger := s.logger.nextFilled.2, pc := .size s.logger.nextFilled.1 false }
  | .size unique again =>
    if s.logger.mCurrentLoggerFile.mCurrDataSize + unique.getSize >
        s.logger.mCurrentLoggerFile.mFileSizeLimite then
      { s with pc := if again then .recycle else .createFile unique }
    else { s with pc := .test unique 0 }
  | .createFile unique =>
    { s with logger := s.logger.createFile true, pc := .size unique true, closed := false }
  | .test unique curr =>
    { s with pc := if s.logger.mCurrentLoggerFile.mRunning then .write unique curr else .recycle }
  | .write unique curr =>
    let sz := takes n (unique.getSize - curr)
    match s.closed, s.logger.mCurrentLoggerFile.mFd with
    | false, some fd =>
      if sz = 0 then { s with pc := .recycle }
      else
        { s with
          logger := { s.logger with
            mCurrentLoggerFile :=
              s.logger.mCurrentLoggerFile.written fd (unique.content.take sz) sz }
          pc := .test unique (curr + sz) }
    | _, _ => { s with pc := .recycle }
  | .recycle => { s with logger := s.logger.recycle, pc := .loop }
  | .returned => s

/-- Pushes return before `stop` is called. -/
def push (s : LoggerStop) (tid : ThreadId) (msg : Bytes) : LoggerStop :=
  if s.stop = .cancelTimer then
    { s with
      logger := (s.logger.findLoggerLine tid).onLine tid fun line q =>
        line.pushToBuffer q (stamp s.messages.length msg)
      messages := s.messages ++ [stamp s.messages.length msg] }
  else s

def step (s : LoggerStop) : StopEvent → LoggerStop
  | .push tid msg => s.push tid msg
  | .setStandbyQueueMax num => { s with logger := { s.logger with mStandbyQueueMax := num } }
  | .timeoutNotify => { s with logger := { s.logger with mTimeout := true } }
  | .work order n => s.work order n
  | .stop =>
    match s.stop with
    | .cancelTimer => { s with stop := .running }
    | .running => { s with logger := { s.logger with mRunning := false }, stop := .fileRunning }
    | .fileRunning =>
      { s with
        logger := { s.logger with
          mCurrentLoggerFile := { s.logger.mCurrentLoggerFile with mRunning := false } }
        stop := .close }
    | .close => { s with closed := true, stop := .returned }
    | .returned => s

/-- The message is in one of the files. -/
def InFiles (s : LoggerStop) (m : List LogByte) : Prop :=
  ∃ file ∈ s.logger.mCurrentLoggerFile.files, m <:+: file

/-- `stop` and `join` have returned only if the files have every message. -/
def Flushed (s : LoggerStop) : Prop :=
  s.stop = .returned → s.pc = .returned → ∀ m ∈ s.messages, s.InFiles m

/-- Nothing is left to write: the working buffers and the filled queue are empty, and so is what
remains of the buffer at hand, unless a `write` of it is under way. -/
structure NothingPending (s : LoggerStop) : Prop where
  lines : ∀ tid line, s.logger.mLoggerLineHashtable tid = some line →
    line.mLoggerBufferPtrA.content = []
  queue : ∀ b ∈ s.logger.mQueues.mFilled, b.content = []
  hand : match s.pc with
    | .size unique _ | .createFile unique => unique.content = []
    | .test unique curr => unique.getSize ≤ curr
    | _ => True

/-- What a step must be for no message to be lost: messages are shorter than a buffer; a `write`
takes the bytes that are its turn, all of them once `stop` has come to the file, and before that
is closed; and nothing is pending then. -/
def Meets (s : LoggerStop) : StopEvent → Prop
  | .push _ msg => msg.length < bufferCapacity
  | .setStandbyQueueMax _ | .timeoutNotify => True
  | .work _ n =>
    match s.pc with
    | .write unique curr =>
      let sz := takes n (unique.getSize - curr)
      unique.content.take sz = (unique.content.drop curr).take sz ∧
        (s.logger.mCurrentLoggerFile.mRunning = false →
          unique.getSize ≤ curr ∨ s.closed = false ∧ sz = unique.getSize - curr)
    | _ => True
  | .stop => s.stop = .fileRunning → s.NothingPending

end LoggerStop

-- ---------------------------------------------------------------------------
-- Lines
-- ---------------------------------------------------------------------------

/-- A function of a line keeps what the line and the queue have, in a buffer each. -/
structure Carries (line : LoggerLine) (q : BufferQueues) (r : LoggerLine × BufferQueues) :
    Prop where
  line : line.mLoggerBufferPtrA.content <:+: r.1.mLoggerBufferPtrA.content ∨
    line.mLoggerBufferPtrA ∈ r.2.mFilled
  queue : q.mFilled ⊆ r.2.mFilled

namespace LoggerLine

section

variable {line : LoggerLine} {q : BufferQueues}
  (hStandby : ∀ b, line.mLoggerBufferPtrB = some b → b.content = [])
  (hEmpties : ∀ b ∈ q.mEmpty, b.content = [])
include hStandby hEmpties

/-- The working buffer goes to the end of the queue. -/
theorem filled_getEmptyBuffer : (line.getEmptyBuffer q).2.mFilled ++ [line.mLoggerBufferPtrA] =
    q.mFilled ++ [line.mLoggerBufferPtrA] := by
  rw [(getEmptyBuffer_spec hStandby hEmpties).2.1]

theorem pushToQueue_carries : Carries line q (line.pushToQueue q) := by
  have hFilled : (line.pushToQueue q).2.mFilled = q.mFilled ++ [line.mLoggerBufferPtrA] :=
    filled_getEmptyBuffer hStandby hEmpties
  refine ⟨Or.inr ?_, ?_⟩
  · rw [hFilled]
    exact List.mem_concat_self
  · rw [hFilled]
    exact List.subset_append_left ..

theorem pushToBuffer_carries (msg : List LogByte) : Carries line q (line.pushToBuffer q msg) := by
  unfold pushToBuffer
  cases hPush : line.mLoggerBufferPtrA.push msg with
  | some a =>
    refine ⟨Or.inl ?_, List.Subset.refl _⟩
    show _ <:+: a.content
    rw [LoggerBuffer.push_content hPush]
    exact (List.prefix_append ..).isInfix
  | none =>
    have hFilled := filled_getEmptyBuffer hStandby hEmpties
    refine ⟨Or.inr ?_, ?_⟩
    · show _ ∈ (line.getEmptyBuffer q).2.mFilled ++ [line.mLoggerBufferPtrA]
      exact List.mem_concat_self
    · show q.mFilled ⊆ (line.getEmptyBuffer q).2.mFilled ++ [line.mLoggerBufferPtrA]
      rw [hFilled]
      exact List.subset_append_left ..

/-- A message that is shorter than a buffer is in the working buffer afterwards. -/
theorem pushToBuffer_holds {msg : List LogByte} (hMsg : msg.length < bufferCapacity) :
    msg <:+: (line.pushToBuffer q msg).1.mLoggerBufferPtrA.content := by
  unfold pushToBuffer
  cases hPush : line.mLoggerBufferPtrA.push msg with
  | some a =>
    show _ <:+: a.content
    rw [LoggerBuffer.push_content hPush]
    exact (List.suffix_append ..).isInfix
  | none =>
    obtain ⟨hEmpty, -, -⟩ := getEmptyBuffer_spec hStandby hEmpties
    obtain ⟨a, hA, hContent⟩ := LoggerBuffer.push_empty hEmpty hMsg
    refine ⟨[], [], ?_⟩
    show _ = (((line.getEmptyBuffer q).1.push msg).getD _).content
    rw [hA, Option.getD_some, hContent, List.nil_append, List.append_nil]

end

end LoggerLine

-- ---------------------------------------------------------------------------
-- Where messages are
-- ---------------------------------------------------------------------------

namespace WorkPc

/-- The buffer that is being archived. -/
def hand : WorkPc → Option LoggerBuffer
  | .size unique _ | .createFile unique | .test unique _ | .write unique _ => some unique
  | .loop | .timeout | .lines _ | .waitAndPop | .recycle | .returned => none

/-- The current file ends with what has been written of the buffer. -/
def Written (current : List LogByte) : WorkPc → Prop
  | .test unique curr | .write unique curr =>
    curr ≤ unique.getSize ∧ unique.content.take curr <:+ current
  | _ => True

end WorkPc

/-- Before `stop` comes to the file. -/
def StopPc.before : StopPc → Bool
  | .cancelTimer | .running | .fileRunning => true
  | .close | .returned => false

namespace LoggerStop

/-- Where a message is as long as the file is open. -/
inductive Kept (s : LoggerStop) (m : List LogByte) : Prop where
  | files (h : s.InFiles m)
  | hand {unique : LoggerBuffer} (hHand : s.pc.hand = some unique) (h : m <:+: unique.content)
  | queue {b : LoggerBuffer} (hMem : b ∈ s.logger.mQueues.mFilled) (h : m <:+: b.content)
  | line {tid : ThreadId} {line : LoggerLine}
      (hLine : s.logger.mLoggerLineHashtable tid = some line)
      (h : m <:+: line.mLoggerBufferPtrA.content)

/-- What every step keeps. After `stop` has come to the file, a message is in the files or in a
`write` that is under way. -/
structure Ready (s : LoggerStop) : Prop where
  current : ∃ older current, s.logger.mCurrentLoggerFile.files = older ++ [current] ∧
    s.logger.mCurrentLoggerFile.mFd = some older.length ∧ s.pc.Written current
  limit : bufferCapacity ≤ s.logger.mFileSizeLimite
  again : ∀ unique, s.pc = .size unique true → s.logger.mCurrentLoggerFile.mCurrDataSize = 0 ∧
    bufferCapacity ≤ s.logger.mCurrentLoggerFile.mFileSizeLimite
  standby : ∀ tid line b, s.logger.mLoggerLineHashtable tid = some line →
    line.mLoggerBufferPtrB = some b → b.content = []
  empties : ∀ b ∈ s.logger.mQueues.mEmpty, b.content = []
  running : s.logger.mCurrentLoggerFile.mRunning = s.stop.before
  opened : s.stop.before = true → s.closed = false
  kept : s.stop.before = true → ∀ m ∈ s.messages, s.Kept m
  flushed : s.stop.before = false → ∀ m ∈ s.messages, s.InFiles m ∨
    ∃ unique curr, s.pc = .write unique curr ∧ m <:+: unique.content

variable {s : LoggerStop} {m : List LogByte}

theorem InFiles.mono {m' : List LogByte} (h : s.InFiles m') (hPart : m <:+: m') : s.InFiles m := by
  obtain ⟨file, hMem, hFile⟩ := h
  exact ⟨file, hMem, hPart.trans hFile⟩

/-- Files only grow. -/
theorem InFiles.grow {s' : LoggerStop} (h : s.InFiles m)
    (hGrow : ∀ file ∈ s.logger.mCurrentLoggerFile.files,
      ∃ file' ∈ s'.logger.mCurrentLoggerFile.files, file <:+: file') : s'.InFiles m := by
  obtain ⟨file, hMem, hFile⟩ := h
  obtain ⟨file', hMem', hGrown⟩ := hGrow file hMem
  exact ⟨file', hMem', hFile.trans hGrown⟩

/-- Nothing is taken out of the places where messages are. -/
theorem Kept.move {s' : LoggerStop} (h : s.Kept m) (hFiles : s.InFiles m → s'.InFiles m)
    (hHand : ∀ unique, s.pc.hand = some unique → s'.pc.hand = some unique)
    (hFilled : s.logger.mQueues.mFilled ⊆ s'.logger.mQueues.mFilled)
    (hTable : s'.logger.mLoggerLineHashtable = s.logger.mLoggerLineHashtable) : s'.Kept m := by
  cases h with
  | files hIn => exact .files (hFiles hIn)
  | hand hUnique hPart => exact .hand (hHand _ hUnique) hPart
  | queue hMem hPart => exact .queue (hFilled hMem) hPart
  | line hLine hPart => exact .line (by rw [hTable]; exact hLine) hPart

/-- An empty message is in any file. -/
theorem Ready.inFiles_nil (h : s.Ready) : s.InFiles [] := by
  obtain ⟨older, current, hFiles, -, -⟩ := h.current
  exact ⟨current, by rw [hFiles]; simp, List.nil_infix⟩

/-- What has been written as a whole. -/
theorem Ready.inFiles_of_written (h : s.Ready) {unique : LoggerBuffer} {curr : Nat}
    (hWritten : ∀ current, s.pc.Written current → unique.content.take curr <:+ current)
    (hAll : unique.getSize ≤ curr) : s.InFiles unique.content := by
  obtain ⟨older, current, hFiles, -, hEnd⟩ := h.current
  have hSuffix := hWritten current hEnd
  rw [List.take_of_length_le hAll] at hSuffix
  exact ⟨current, by rw [hFiles]; simp, hSuffix.isInfix⟩

-- ---------------------------------------------------------------------------
-- The background thread
-- ---------------------------------------------------------------------------

/-- Another place in the code, and nothing else. -/
theorem Ready.goto (h : s.Ready) {pc : WorkPc}
    (hWritten : ∀ current, s.pc.Written current → pc.Written current)
    (hAgain : ∀ unique, pc ≠ .size unique true)
    (hHand : ∀ unique, s.pc.hand = some unique → s.stop.before = true →
      pc.hand = some unique ∨ s.InFiles unique.content)
    (hWrite : ∀ unique curr, s.pc = .write unique curr → s.stop.before = false →
      s.InFiles unique.content) :
    ({ s with pc := pc } : LoggerStop).Ready := by
  obtain ⟨older, current, hFiles, hFd, hEnd⟩ := h.current
  refine { h with
    current := ⟨older, current, hFiles, hFd, hWritten current hEnd⟩
    again := fun unique hPc => absurd hPc (hAgain unique)
    kept := fun hBefore m hMem => ?_
    flushed := fun hAfter m hMem => ?_ }
  · cases h.kept hBefore m hMem with
    | files hIn => exact .files hIn
    | hand hUnique hPart =>
      rcases hHand _ hUnique hBefore with hStays | hIn
      · exact .hand hStays hPart
      · exact .files (hIn.mono hPart)
    | queue hQueue hPart => exact .queue hQueue hPart
    | line hLine hPart => exact .line hLine hPart
  · rcases h.flushed hAfter m hMem with hIn | ⟨unique, curr, hPc, hPart⟩
    · exact Or.inl hIn
    · exact Or.inl ((hWrite unique curr hPc hAfter).mono hPart)

/-- With the same buffer at hand, or none. -/
theorem Ready.carry (h : s.Ready) {pc : WorkPc}
    (hWritten : ∀ current, s.pc.Written current → pc.Written current)
    (hAgain : ∀ unique, pc ≠ .size unique true) (hHand : pc.hand = s.pc.hand)
    (hNoWrite : ∀ unique curr, s.pc ≠ .write unique curr) :
    ({ s with pc := pc } : LoggerStop).Ready :=
  h.goto hWritten hAgain (fun _ hUnique _ => Or.inl (hHand.trans hUnique))
    fun unique curr hWrite => absurd hWrite (hNoWrite unique curr)

/-- Buffers and queues change, the file does not. -/
theorem Ready.requeue (h : s.Ready) {l : Logger} {pc : WorkPc}
    (hFile : l.mCurrentLoggerFile = s.logger.mCurrentLoggerFile)
    (hLimit : l.mFileSizeLimite = s.logger.mFileSizeLimite)
    (hWritten : ∀ current, s.pc.Written current → pc.Written current)
    (hAgain : ∀ unique, pc = .size unique true → s.pc = .size unique true)
    (hStandby : ∀ tid line b, l.mLoggerLineHashtable tid = some line →
      line.mLoggerBufferPtrB = some b → b.content = [])
    (hEmpties : ∀ b ∈ l.mQueues.mEmpty, b.content = [])
    (hKept : ∀ m, s.Kept m → ({ s with logger := l, pc := pc } : LoggerStop).Kept m)
    (hWrite : ∀ unique curr, s.pc = .write unique curr → pc = .write unique curr) :
    ({ s with logger := l, pc := pc } : LoggerStop).Ready := by
  obtain ⟨older, current, hFiles, hFd, hEnd⟩ := h.current
  refine ⟨⟨older, current, ?_, ?_, hWritten current hEnd⟩, ?_, ?_, hStandby, hEmpties, ?_, h.opened,
    fun hBefore m hMem => hKept m (h.kept hBefore m hMem), ?_⟩
  · rw [hFile]
    exact hFiles
  · rw [hFile]
    exact hFd
  · rw [hLimit]
    exact h.limit
  · intro unique hPc
    rw [hFile]
    exact h.again unique (hAgain unique hPc)
  · rw [hFile]
    exact h.running
  · intro hAfter m hMem
    rcases h.flushed hAfter m hMem with ⟨file, hFileMem, hPart⟩ | ⟨unique, curr, hPc, hPart⟩
    · exact Or.inl ⟨file, by rw [hFile]; exact hFileMem, hPart⟩
    · exact Or.inr ⟨unique, curr, hWrite unique curr hPc, hPart⟩

/-- A function of one line. -/
theorem Ready.onLine (h : s.Ready) (tid : ThreadId) (msg : List LogByte) {pc : WorkPc}
    {f : LoggerLine → BufferQueues → LoggerLine × BufferQueues}
    (hLines : ∀ line, s.logger.mLoggerLineHashtable tid = some line →
      Carries line s.logger.mQueues (f line s.logger.mQueues) ∧
        Moves line s.logger.mQueues msg (f line s.logger.mQueues))
    (hWritten : ∀ current, s.pc.Written current → pc.Written current)
    (hAgain : ∀ unique, pc = .size unique true → s.pc = .size unique true)
    (hHand : pc.hand = s.pc.hand)
    (hWrite : ∀ unique curr, s.pc = .write unique curr → pc = .write unique curr) :
    ({ s with logger := s.logger.onLine tid f, pc := pc } : LoggerStop).Ready := by
  cases hLine : s.logger.mLoggerLineHashtable tid with
  | none =>
    have hSame : s.logger.onLine tid f = s.logger := by rw [Logger.onLine, hLine]
    rw [hSame]
    exact h.requeue rfl rfl hWritten hAgain h.standby h.empties
      (fun m hKept => hKept.move id (fun _ hUnique => hHand.trans hUnique)
        (List.Subset.refl _) rfl) hWrite
  | some line =>
    obtain ⟨⟨hCarried, hQueue⟩, -, hStandby, hEmpties⟩ := hLines line hLine
    rw [onLine_of_some hLine]
    refine h.requeue rfl rfl hWritten hAgain (fun tid' line' b hLine' hB => ?_)
      (fun b hMem => h.empties b (hEmpties hMem)) (fun m hKept => ?_) hWrite
    · dsimp only at hLine'
      by_cases hIs : tid' = tid
      · rw [hIs, Function.update_self, Option.some.injEq] at hLine'
        rw [← hLine'] at hB
        exact h.standby tid line b hLine (hStandby b hB)
      · rw [Function.update_of_ne hIs] at hLine'
        exact h.standby tid' line' b hLine' hB
    · cases hKept with
      | files hIn => exact .files hIn
      | hand hUnique hPart => exact .hand (hHand.trans hUnique) hPart
      | queue hMem hPart => exact .queue (hQueue hMem) hPart
      | @line tid' line' hLine' hPart =>
        by_cases hIs : tid' = tid
        · rw [hIs, hLine] at hLine'
          obtain rfl := Option.some.inj hLine'
          rcases hCarried with hGrown | hMoved
          · exact .line (Function.update_self ..) (hPart.trans hGrown)
          · exact .queue hMoved hPart
        · exact .line ((Function.update_of_ne hIs ..).trans hLine') hPart

/-- The first buffer of the queue is taken. -/
theorem Ready.nextFilled (h : s.Ready) (hPc : s.pc = .waitAndPop) :
    ({ s with logger := s.logger.nextFilled.2,
              pc := .size s.logger.nextFilled.1 false } : LoggerStop).Ready := by
  have hNext : s.logger.nextFilled.2.mCurrentLoggerFile = s.logger.mCurrentLoggerFile ∧
      s.logger.nextFilled.2.mFileSizeLimite = s.logger.mFileSizeLimite ∧
      s.logger.nextFilled.2.mLoggerLineHashtable = s.logger.mLoggerLineHashtable ∧
      s.logger.nextFilled.2.mQueues.mEmpty = s.logger.mQueues.mEmpty ∧
      ∀ b ∈ s.logger.mQueues.mFilled, b = s.logger.nextFilled.1 ∨
        b ∈ s.logger.nextFilled.2.mQueues.mFilled := by
    unfold Logger.nextFilled
    cases hFilled : s.logger.mQueues.mFilled with
    | nil => exact ⟨rfl, rfl, rfl, rfl, fun b hMem => nomatch hMem⟩
    | cons b rest => exact ⟨rfl, rfl, rfl, rfl, fun b' hMem => List.mem_cons.mp hMem⟩
  obtain ⟨hFile, hLimit, hTable, hEmpty, hFilled⟩ := hNext
  refine h.requeue hFile hLimit (fun _ _ => trivial) (fun unique hSize => ?_) ?_ ?_
    (fun m hKept => ?_) (by rw [hPc]; nofun)
  · cases (WorkPc.size.inj hSize).2
  · rw [hTable]
    exact h.standby
  · rw [hEmpty]
    exact h.empties
  · cases hKept with
    | files hIn => exact .files (hIn.grow fun file hMem => ⟨file, hFile ▸ hMem, List.infix_rfl⟩)
    | hand hUnique hPart => rw [hPc] at hUnique; cases hUnique
    | queue hMem hPart =>
      rcases hFilled _ hMem with rfl | hRest
      · exact .hand rfl hPart
      · exact .queue hRest hPart
    | line hLine hPart => exact .line (hTable ▸ hLine) hPart

/-- A new file, for the buffer that did not fit. -/
theorem Ready.createFile (h : s.Ready) {unique : LoggerBuffer} (hPc : s.pc = .createFile unique) :
    ({ s with logger := s.logger.createFile true, pc := .size unique true,
              closed := false } : LoggerStop).Ready := by
  obtain ⟨older, current, hFiles, hFd, -⟩ := h.current
  have hGrow : ∀ m, s.InFiles m → ({ s with
      logger := s.logger.createFile true, pc := .size unique true, closed := false } :
        LoggerStop).InFiles m :=
    fun m hIn => hIn.grow fun file hMem => ⟨file, List.mem_append_left _ hMem, List.infix_rfl⟩
  refine ⟨⟨s.logger.mCurrentLoggerFile.files, [], rfl, rfl, trivial⟩, h.limit,
    fun _ _ => ⟨rfl, h.limit⟩, h.standby, h.empties, h.running, fun _ => rfl, ?_, ?_⟩
  · intro hBefore m hMem
    refine (h.kept hBefore m hMem).move (hGrow m) (fun _ hUnique => ?_) (List.Subset.refl _) rfl
    rw [hPc] at hUnique
    exact hUnique
  · intro hAfter m hMem
    rcases h.flushed hAfter m hMem with hIn | ⟨unique', curr, hWrite, -⟩
    · exact Or.inl (hGrow m hIn)
    · rw [hPc] at hWrite
      cases hWrite

/-- A `write` of `sz` bytes that are their turn. -/
theorem Ready.written (h : s.Ready) {unique : LoggerBuffer} {curr sz fd : Nat}
    (hPc : s.pc = .write unique curr) (hFd : s.logger.mCurrentLoggerFile.mFd = some fd)
    (hTurn : unique.content.take sz = (unique.content.drop curr).take sz)
    (hRoom : curr + sz ≤ unique.getSize)
    (hRest : s.stop.before = false → curr + sz = unique.getSize) :
    ({ s with
        logger := { s.logger with
          mCurrentLoggerFile :=
            s.logger.mCurrentLoggerFile.written fd (unique.content.take sz) sz }
        pc := .test unique (curr + sz) } : LoggerStop).Ready := by
  obtain ⟨older, current, hFiles, hOpen, hEnd⟩ := h.current
  obtain rfl : fd = older.length := Option.some.inj (hFd.symm.trans hOpen)
  rw [hPc] at hEnd
  have hWritten : s.logger.mCurrentLoggerFile.files.modify older.length
      (· ++ unique.content.take sz) = older ++ [current ++ unique.content.take sz] := by
    rw [hFiles, LoggerFile.modify_last]
  have hSuffix : unique.content.take (curr + sz) <:+ current ++ unique.content.take sz := by
    obtain ⟨start, hStart⟩ := hEnd.2
    rw [List.take_add, hTurn, ← hStart, List.append_assoc]
    exact List.suffix_append ..
  have hGrow : ∀ m, s.InFiles m → ({ s with
      logger := { s.logger with
        mCurrentLoggerFile := s.logger.mCurrentLoggerFile.written older.length
          (unique.content.take sz) sz }
      pc := .test unique (curr + sz) } : LoggerStop).InFiles m := by
    refine fun m hIn => hIn.grow fun file hMem => ?_
    show ∃ file' ∈ s.logger.mCurrentLoggerFile.files.modify older.length
      (· ++ unique.content.take sz), file <:+: file'
    rw [hWritten]
    rw [hFiles] at hMem
    rcases List.mem_append.mp hMem with hOlder | hCurrent
    · exact ⟨file, List.mem_append_left _ hOlder, List.infix_rfl⟩
    · rw [List.mem_singleton.mp hCurrent]
      exact ⟨_, List.mem_concat_self, (List.prefix_append ..).isInfix⟩
  refine ⟨⟨older, _, hWritten, hFd, hRoom, hSuffix⟩, h.limit, nofun, h.standby, h.empties,
    h.running, h.opened, ?_, fun hAfter m hMem => Or.inl ?_⟩
  · intro hBefore m hMem
    refine (h.kept hBefore m hMem).move (hGrow m) (fun _ hUnique => ?_) (List.Subset.refl _) rfl
    rw [hPc] at hUnique
    exact hUnique
  · rcases h.flushed hAfter m hMem with hIn | ⟨unique', curr', hWrite, hPart⟩
    · exact hGrow m hIn
    · -- the `write` that was under way has taken the rest
      rw [hPc] at hWrite
      obtain ⟨rfl, rfl⟩ := WorkPc.write.inj hWrite
      rw [hRest hAfter, LoggerBuffer.getSize, List.take_length] at hSuffix
      refine ⟨current ++ unique.content.take sz, ?_, hPart.trans hSuffix.isInfix⟩
      show _ ∈ s.logger.mCurrentLoggerFile.files.modify older.length (· ++ unique.content.take sz)
      rw [hWritten]
      exact List.mem_concat_self

theorem Ready.recycle (h : s.Ready) (hPc : s.pc = .recycle) :
    ({ s with logger := s.logger.recycle, pc := .loop } : LoggerStop).Ready := by
  have hNoHand : ∀ unique, s.pc.hand = some unique → WorkPc.loop.hand = some unique := by
    rw [hPc]
    nofun
  have hNoWrite : ∀ unique curr, s.pc = .write unique curr → WorkPc.loop = .write unique curr := by
    rw [hPc]
    nofun
  unfold Logger.recycle
  split
  · refine h.requeue rfl rfl (fun _ _ => trivial) nofun h.standby (fun b hMem => ?_)
      (fun m hKept => hKept.move id hNoHand (List.Subset.refl _) rfl) hNoWrite
    rcases List.mem_append.mp hMem with hOld | hNew
    · exact h.empties b hOld
    · rw [List.mem_singleton.mp hNew]
      rfl
  · exact h.requeue rfl rfl (fun _ _ => trivial) nofun h.standby h.empties
      (fun m hKept => hKept.move id hNoHand (List.Subset.refl _) rfl) hNoWrite

/-- The flags, and `stop` on one side of `LoggerFile::close`. -/
theorem Ready.aside (h : s.Ready) {l : Logger} {stop : StopPc} {closed : Bool}
    (hFile : l.mCurrentLoggerFile = s.logger.mCurrentLoggerFile)
    (hLimit : l.mFileSizeLimite = s.logger.mFileSizeLimite)
    (hQueues : l.mQueues = s.logger.mQueues)
    (hTable : l.mLoggerLineHashtable = s.logger.mLoggerLineHashtable)
    (hBefore : stop.before = s.stop.before) (hOpened : stop.before = true → closed = false) :
    ({ s with logger := l, stop := stop, closed := closed } : LoggerStop).Ready := by
  have hSame : ({ s with logger := l } : LoggerStop).Ready := by
    refine h.requeue hFile hLimit (fun _ hWritten => hWritten) (fun _ hSize => hSize) ?_ ?_
      (fun m hKept => ?_) fun _ _ hWrite => hWrite
    · rw [hTable]
      exact h.standby
    · rw [hQueues]
      exact h.empties
    · refine hKept.move (fun hIn => hIn.grow fun file hMem => ?_) (fun _ hUnique => hUnique) ?_
        hTable
      · exact ⟨file, by rw [hFile]; exact hMem, List.infix_rfl⟩
      · dsimp only
        rw [hQueues]
        exact List.Subset.refl _
  refine ⟨hSame.current, hSame.limit, hSame.again, hSame.standby, hSame.empties, ?_, hOpened, ?_,
    ?_⟩
  · exact hSame.running.trans hBefore.symm
  · intro hStop m hMem
    exact (hSame.kept (hBefore.symm.trans hStop) m hMem).move id (fun _ hUnique => hUnique)
      (List.Subset.refl _) rfl
  · intro hStop m hMem
    exact hSame.flushed (hBefore.symm.trans hStop) m hMem

theorem takes_le (n remain : Nat) : takes n remain ≤ remain := by
  unfold takes
  split <;> omega

theorem takes_eq_zero {n remain : Nat} (h : takes n remain = 0) : remain = 0 := by
  unfold takes at h
  split at h <;> omega

theorem takes_self {n remain : Nat} (hSome : n ≠ 0) (hLe : n ≤ remain) : takes n remain = n := by
  rw [takes, if_neg (by omega)]
  omega

/-- A `write` to an open file. -/
theorem work_write {unique : LoggerBuffer} {curr fd : Nat} (hPc : s.pc = .write unique curr)
    (hFd : s.logger.mCurrentLoggerFile.mFd = some fd) (hOpen : s.closed = false)
    (order : List ThreadId) (n : Nat) :
    s.work order n =
      if takes n (unique.getSize - curr) = 0 then { s with pc := .recycle }
      else
        { s with
          logger := { s.logger with
            mCurrentLoggerFile := s.logger.mCurrentLoggerFile.written fd
              (unique.content.take (takes n (unique.getSize - curr)))
              (takes n (unique.getSize - curr)) }
          pc := .test unique (curr + takes n (unique.getSize - curr)) } := by
  rw [work, hPc]
  dsimp only
  rw [hFd, hOpen]

/-- At a `write`. -/
theorem Ready.write (h : s.Ready) {unique : LoggerBuffer} {curr n : Nat} {order : List ThreadId}
    (hPc : s.pc = .write unique curr) (hMeets : s.Meets (.work order n)) :
    (s.work order n).Ready := by
  obtain ⟨older, current, hFiles, hFd, hEnd⟩ := h.current
  have hWhole : unique.getSize ≤ curr → s.InFiles unique.content :=
    h.inFiles_of_written fun current hWritten => by rw [hPc] at hWritten; exact hWritten.2
  have hEnds : unique.getSize ≤ curr → ({ s with pc := .recycle } : LoggerStop).Ready := by
    intro hDone
    refine h.goto (fun _ _ => trivial) nofun (fun unique' hUnique _ => Or.inr ?_)
      fun unique' curr' hWrite _ => ?_
    · rw [hPc] at hUnique
      obtain rfl := Option.some.inj hUnique
      exact hWhole hDone
    · rw [hPc] at hWrite
      obtain ⟨rfl, rfl⟩ := WorkPc.write.inj hWrite
      exact hWhole hDone
  rw [Meets, hPc] at hMeets
  obtain ⟨hTurn, hLate⟩ := hMeets
  rw [h.running] at hLate
  cases hClosed : s.closed with
  | true =>
    have hStop : s.stop.before = false := by
      cases hBefore : s.stop.before with
      | true => exact hClosed.symm.trans (h.opened hBefore)
      | false => rfl
    have hWork : s.work order n = { s with pc := .recycle } := by
      rw [work, hPc]
      dsimp only
      rw [hClosed]
    rw [hWork]
    refine hEnds ?_
    rcases hLate hStop with hDone | ⟨hOpen, -⟩
    · exact hDone
    · rw [hClosed] at hOpen
      cases hOpen
  | false =>
    rw [work_write hPc hFd hClosed]
    by_cases hNothing : takes n (unique.getSize - curr) = 0
    · have hDone := takes_eq_zero hNothing
      rw [if_pos hNothing]
      exact hEnds (by omega)
    · have hRoom := takes_le n (unique.getSize - curr)
      rw [if_neg hNothing]
      exact h.written hPc hFd hTurn (by omega) fun hStop => by
        rcases hLate hStop with hDone | ⟨-, hRest⟩ <;> omega

theorem Ready.work (h : s.Ready) {order : List ThreadId} {n : Nat}
    (hMeets : s.Meets (.work order n)) : (s.work order n).Ready := by
  cases hPc : s.pc with
  | loop =>
    rw [LoggerStop.work, hPc]
    dsimp only
    split
    · exact h.carry (fun _ _ => trivial) nofun (by rw [hPc]; rfl) (by rw [hPc]; nofun)
    · exact h.carry (fun _ _ => trivial) nofun (by rw [hPc]; rfl) (by rw [hPc]; nofun)
  | timeout =>
    rw [LoggerStop.work, hPc]
    dsimp only
    split
    · split
      · exact h.carry (fun _ _ => trivial) nofun (by rw [hPc]; rfl) (by rw [hPc]; nofun)
      · exact h
    · exact h.carry (fun _ _ => trivial) nofun (by rw [hPc]; rfl) (by rw [hPc]; nofun)
  | lines rest =>
    rw [LoggerStop.work, hPc]
    cases rest with
    | nil =>
      have hReset : ({ s with logger := { s.logger with mTimeout := false } } : LoggerStop).Ready :=
        h.aside rfl rfl rfl rfl rfl h.opened
      exact hReset.carry (fun _ _ => trivial) nofun (by dsimp only; rw [hPc]; rfl)
        (by dsimp only; rw [hPc]; nofun)
    | cons tid rest =>
      refine h.onLine tid [] (fun line hLine => ?_) (fun _ _ => trivial) nofun (by rw [hPc]; rfl)
        (by rw [hPc]; nofun)
      have hStandby := fun b => h.standby tid line b hLine
      exact ⟨LoggerLine.pushToQueue_carries hStandby h.empties,
        LoggerLine.pushToQueue_moves hStandby h.empties⟩
  | waitAndPop =>
    rw [LoggerStop.work, hPc]
    exact h.nextFilled hPc
  | size unique again =>
    have hFits : unique.getSize < bufferCapacity := unique.fits
    rw [LoggerStop.work, hPc]
    dsimp only
    split
    · rename_i hLarge
      cases again with
      | true =>
        -- the new file has room for any buffer
        obtain ⟨hSize, hLimit⟩ := h.again unique hPc
        omega
      | false =>
        exact h.carry (fun _ _ => trivial) nofun (by rw [hPc]; rfl) (by rw [hPc]; nofun)
    · exact h.carry (fun current _ => ⟨Nat.zero_le _, List.nil_suffix⟩) nofun (by rw [hPc]; rfl)
        (by rw [hPc]; nofun)
  | createFile unique =>
    rw [LoggerStop.work, hPc]
    exact h.createFile hPc
  | test unique curr =>
    rw [LoggerStop.work, hPc]
    dsimp only
    split
    · exact h.carry (fun current hWritten => by rw [hPc] at hWritten; exact hWritten) nofun
        (by rw [hPc]; rfl) (by rw [hPc]; nofun)
    · rename_i hStopped
      rw [h.running] at hStopped
      exact h.goto (fun _ _ => trivial) nofun (fun _ _ hBefore => absurd hBefore hStopped)
        (by rw [hPc]; nofun)
  | write unique curr => exact h.write hPc hMeets
  | recycle =>
    rw [LoggerStop.work, hPc]
    exact h.recycle hPc
  | returned =>
    rw [LoggerStop.work, hPc]
    exact h

-- ---------------------------------------------------------------------------
-- The other steps
-- ---------------------------------------------------------------------------

/-- The line of a thread that has none yet. -/
theorem Ready.findLoggerLine (h : s.Ready) (tid : ThreadId) :
    ({ s with logger := s.logger.findLoggerLine tid } : LoggerStop).Ready ∧
      ∃ line, (s.logger.findLoggerLine tid).mLoggerLineHashtable tid = some line := by
  unfold Logger.findLoggerLine
  cases hLine : s.logger.mLoggerLineHashtable tid with
  | some line => exact ⟨h, line, hLine⟩
  | none =>
    refine ⟨?_, LoggerLine.new, Function.update_self ..⟩
    refine h.requeue rfl rfl (fun _ hWritten => hWritten) (fun _ hSize => hSize)
      (fun tid' line b hLine' hB => ?_) h.empties (fun m hKept => ?_) fun _ _ hWrite => hWrite
    · dsimp only at hLine'
      by_cases hIs : tid' = tid
      · rw [hIs, Function.update_self, Option.some.injEq] at hLine'
        rw [← hLine'] at hB
        rw [← Option.some.inj hB]
        rfl
      · rw [Function.update_of_ne hIs] at hLine'
        exact h.standby tid' line b hLine' hB
    · cases hKept with
      | files hIn => exact .files hIn
      | hand hUnique hPart => exact .hand hUnique hPart
      | queue hMem hPart => exact .queue hMem hPart
      | @line tid' line hLine' hPart =>
        have hNe : tid' ≠ tid := by
          rintro rfl
          rw [hLine] at hLine'
          cases hLine'
        exact .line ((Function.update_of_ne hNe ..).trans hLine') hPart

/-- One more message that is kept. -/
theorem Ready.message (h : s.Ready) (hStop : s.stop = .cancelTimer) (hNew : s.Kept m) :
    ({ s with messages := s.messages ++ [m] } : LoggerStop).Ready := by
  refine { h with
    kept := fun hBefore m' hMem => ?_
    flushed := fun hAfter => by rw [hStop] at hAfter; cases hAfter }
  have hKept : s.Kept m' := by
    rcases List.mem_append.mp hMem with hOld | hLast
    · exact h.kept hBefore m' hOld
    · rw [List.mem_singleton.mp hLast]
      exact hNew
  exact hKept.move id (fun _ hUnique => hUnique) (List.Subset.refl _) rfl

theorem Ready.push (h : s.Ready) {tid : ThreadId} {msg : Bytes}
    (hMsg : msg.length < bufferCapacity) : (s.push tid msg).Ready := by
  unfold LoggerStop.push
  split
  · rename_i hStop
    have hLength : (stamp s.messages.length msg).length < bufferCapacity := by
      rw [stamp, List.length_map]
      exact hMsg
    obtain ⟨hFound, line, hLine⟩ := h.findLoggerLine tid
    have hStandby := fun b => hFound.standby tid line b hLine
    have hPushed : ({ s with
        logger := (s.logger.findLoggerLine tid).onLine tid fun line q =>
          line.pushToBuffer q (stamp s.messages.length msg) } : LoggerStop).Ready := by
      refine hFound.onLine tid (stamp s.messages.length msg) (fun line hLine => ?_)
        (fun _ hWritten => hWritten) (fun _ hSize => hSize) rfl fun _ _ hWrite => hWrite
      have hStandby := fun b => hFound.standby tid line b hLine
      exact ⟨LoggerLine.pushToBuffer_carries hStandby hFound.empties _,
        LoggerLine.pushToBuffer_moves hStandby hFound.empties hLength⟩
    have hTable : ((s.logger.findLoggerLine tid).onLine tid fun line q =>
        line.pushToBuffer q (stamp s.messages.length msg)).mLoggerLineHashtable tid =
          some (line.pushToBuffer (s.logger.findLoggerLine tid).mQueues
            (stamp s.messages.length msg)).1 := by
      rw [onLine_of_some hLine]
      exact Function.update_self ..
    exact hPushed.message hStop (.line hTable
      (LoggerLine.pushToBuffer_holds hStandby hFound.empties hLength))
  · exact h

/-- Nothing is pending when `stop` comes to the file. -/
theorem Ready.fileRunning (h : s.Ready) (hStop : s.stop = .fileRunning)
    (hNothing : s.NothingPending) :
    ({ s with
        logger := { s.logger with
          mCurrentLoggerFile := { s.logger.mCurrentLoggerFile with mRunning := false } }
        stop := .close } : LoggerStop).Ready := by
  refine ⟨h.current, h.limit, h.again, h.standby, h.empties, rfl, nofun, nofun,
    fun _ m hMem => ?_⟩
  have hEmpty : ∀ {content : List LogByte}, content = [] → m <:+: content → s.InFiles m := by
    intro content hNil hPart
    rw [hNil, List.infix_nil] at hPart
    rw [hPart]
    exact h.inFiles_nil
  cases h.kept (by rw [hStop]; rfl) m hMem with
  | files hIn => exact Or.inl hIn
  | queue hQueue hPart => exact Or.inl (hEmpty (hNothing.queue _ hQueue) hPart)
  | line hLine hPart => exact Or.inl (hEmpty (hNothing.lines _ _ hLine) hPart)
  | @hand unique hUnique hPart =>
    have hHand := hNothing.hand
    cases hPc : s.pc with
    | size unique' again =>
      rw [hPc] at hUnique hHand
      obtain rfl := Option.some.inj hUnique
      exact Or.inl (hEmpty hHand hPart)
    | createFile unique' =>
      rw [hPc] at hUnique hHand
      obtain rfl := Option.some.inj hUnique
      exact Or.inl (hEmpty hHand hPart)
    | test unique' curr =>
      rw [hPc] at hUnique hHand
      obtain rfl := Option.some.inj hUnique
      have hIn := h.inFiles_of_written (fun current hWritten => by
        rw [hPc] at hWritten; exact hWritten.2) hHand
      exact Or.inl (hIn.mono hPart)
    | write unique' curr =>
      rw [hPc] at hUnique
      obtain rfl := Option.some.inj hUnique
      exact Or.inr ⟨unique', curr, rfl, hPart⟩
    | _ =>
      rw [hPc] at hUnique
      cases hUnique

theorem ready_step {e : StopEvent} (h : s.Ready) (hMeets : s.Meets e) : (s.step e).Ready := by
  cases e with
  | push tid msg => exact h.push hMeets
  | setStandbyQueueMax num => exact h.aside rfl rfl rfl rfl rfl h.opened
  | timeoutNotify => exact h.aside rfl rfl rfl rfl rfl h.opened
  | work order n => exact h.work hMeets
  | stop =>
    rw [step]
    cases hStop : s.stop with
    | cancelTimer =>
      exact h.aside rfl rfl rfl rfl (by rw [hStop]; rfl) fun _ => h.opened (by rw [hStop]; rfl)
    | running =>
      exact h.aside rfl rfl rfl rfl (by rw [hStop]; rfl) fun _ => h.opened (by rw [hStop]; rfl)
    | fileRunning => exact h.fileRunning hStop (hMeets hStop)
    | close => exact h.aside rfl rfl rfl rfl (by rw [hStop]; rfl) nofun
    | returned => exact h

theorem ready_start (fileSize : Nat) : (start fileSize).Ready := by
  have hGrows : bufferCapacity ≤ if fileSize < 1024 * 1024 then 1024 * 1024 else fileSize := by
    unfold bufferCapacity
    split <;> omega
  exact ⟨⟨[], [], rfl, rfl, trivial⟩, hGrows, nofun, nofun, nofun, rfl, fun _ => rfl, nofun, nofun⟩

theorem Ready.flushed_at_end (h : s.Ready) : s.Flushed := by
  intro hStop hPc m hMem
  rcases h.flushed (by rw [hStop]; rfl) m hMem with hIn | ⟨unique, curr, hWrite, -⟩
  · exact hIn
  · rw [hPc] at hWrite
    cases hWrite

/-- **Stopping the logger.** Where nothing is pending when the file is closed, and each `write`
takes the bytes whose turn it is, the files have every message once `stop` and `join` have
returned. -/
theorem stop_flushes (fileSize : Nat) {es : List StopEvent}
    (hMeets : Each step Meets (start fileSize) es) : Always step Flushed (start fileSize) es := by
  have hReady : Always step Ready (start fileSize) es :=
    always_of_each (fun _ _ => True) (fun _ _ _ _ _ _ => trivial)
      (fun s e _ _ h hMeets => ready_step h hMeets) (ready_start fileSize) trivial hMeets
  exact hReady.imp fun s h => h.flushed_at_end

/-- A message that the timer has sent to the file before the logger is stopped. -/
theorem stop_flushes_timeout : Always step Flushed (start 0)
    [.push 1 [97], .timeoutNotify, .work [] 0, .work [1] 0, .work [] 0, .work [] 0, .work [] 0,
      .work [] 0, .work [] 0, .work [] 1, .work [] 0, .work [] 0, .work [] 0, .stop, .stop, .stop,
      .stop, .work [] 0] := by
  have hShort : [97].length < bufferCapacity := by
    show 1 < 40960
    decide
  refine stop_flushes 0 ⟨hShort, trivial, trivial, trivial, trivial, trivial, trivial, trivial,
    trivial, ⟨rfl, nofun⟩, trivial, ⟨rfl, nofun⟩, trivial, nofun, nofun,
    fun _ => ⟨?_, nofun, trivial⟩, nofun, trivial, trivial⟩
  intro tid line hLine
  by_cases hIs : tid = 1
  · subst hIs
    obtain rfl := Option.some.inj hLine
    rfl
  · change Function.update (Function.update (Function.update (fun _ => none) 1 _) 1 _) 1 _ tid =
      some line at hLine
    rw [Function.update_of_ne hIs, Function.update_of_ne hIs, Function.update_of_ne hIs] at hLine
    cases hLine

/-- The loop ends before the message has left its working buffer. -/
theorem not_stop_flushes : ¬ ∀ (fileSize : Nat) (es : List StopEvent),
    (∀ e ∈ es, e.Succeeds) → Always step Flushed (start fileSize) es := by
  intro h
  have hFlushed := (h 0 [.push 1 [97], .stop, .stop, .stop, .stop, .work [] bufferCapacity]
    (by simp [StopEvent.Succeeds, bufferCapacity])).final
  obtain ⟨file, hMem, hPart⟩ := hFlushed rfl rfl [⟨0, 97⟩] List.mem_cons_self
  obtain rfl := List.mem_singleton.mp hMem
  exact absurd (List.infix_nil.mp hPart) (by simp)

-- ---------------------------------------------------------------------------
-- The background thread by itself
-- ---------------------------------------------------------------------------

/-- Statements of the background thread, and of nobody else. -/
abbrev Works : LoggerStop → LoggerStop → Prop :=
  Relation.ReflTransGen fun s s' => ∃ order n, s.work order n = s'

theorem Works.next {s' s'' : LoggerStop} (order : List ThreadId) (n : Nat)
    (h : s.work order n = s') (hRest : Works s' s'') : Works s s'' :=
  Relation.ReflTransGen.head ⟨order, n, h⟩ hRest

/-- The loop over the lines. -/
theorem works_lines {order : List ThreadId} (hPc : s.pc = .lines order) :
    Works s { s with
      logger := { order.foldl (fun l tid => l.onLine tid LoggerLine.pushToQueue) s.logger with
        mTimeout := false }
      pc := .waitAndPop } := by
  induction order generalizing s with
  | nil =>
    have hReset : s.work [] 0 =
        { s with logger := { s.logger with mTimeout := false }, pc := .waitAndPop } := by
      rw [work, hPc]
    exact .next [] 0 hReset .refl
  | cons tid order ih =>
    have hLine : s.work [] 0 =
        { s with logger := s.logger.onLine tid LoggerLine.pushToQueue, pc := .lines order } := by
      rw [work, hPc]
    exact .next [] 0 hLine (ih rfl)

/-- The loop of the file. -/
theorem works_writes {unique : LoggerBuffer} {curr fd : Nat} {writes : Writes} (call : Nat)
    (hProgress : writes.Progress) (hPc : s.pc = .test unique curr)
    (hRunning : s.logger.mCurrentLoggerFile.mRunning = true)
    (hFd : s.logger.mCurrentLoggerFile.mFd = some fd) (hOpen : s.closed = false) :
    Works s { s with
      logger := { s.logger with
        mCurrentLoggerFile := LoggerFile.writeLoop writes unique.content unique.content.length call
          curr s.logger.mCurrentLoggerFile }
      pc := .recycle } := by
  induction hRemain : unique.getSize - curr using Nat.strongRecOn generalizing s call curr with
  | ind remain ih =>
    have hTest : s.work [] 0 = { s with pc := .write unique curr } := by
      rw [work, hPc]
      dsimp only
      rw [if_pos hRunning]
    refine .next [] 0 hTest ?_
    obtain ⟨sz, hSz, hSome⟩ := hProgress call (unique.content.length - curr)
    have hLe : sz.val ≤ unique.getSize - curr := Nat.le_of_lt_succ sz.isLt
    have hWrite := fun n => work_write (s := { s with pc := .write unique curr }) rfl hFd hOpen [] n
    by_cases hMore : sz.val = 0
    · -- nothing remains, and the last call takes nothing
      have hDone : unique.getSize - curr = 0 := by
        by_contra hLeft
        exact hSome hLeft hMore
      refine .next [] 0 ((hWrite 0).trans (if_pos ?_)) ?_
      · rw [takes, if_pos hDone]
      · have hStop : ∀ sz', s.logger.mCurrentLoggerFile.mFd.isSome →
            writes call (unique.content.length - curr) = some sz' → sz'.val = 0 := by
          intro sz' _ hSz'
          rw [← Option.some.inj (hSz.symm.trans hSz'), hMore]
        rw [LoggerFile.writeLoop_stop hStop]
    · have hTakes := takes_self hMore hLe
      refine .next [] sz.val ((hWrite sz.val).trans (if_neg (by rwa [hTakes]))) ?_
      rw [hTakes, LoggerFile.writeLoop_more hFd hSz hMore]
      exact ih (unique.getSize - (curr + sz.val)) (by omega) (call + 1) rfl hRunning hFd hOpen rfl

theorem works_recycle (hPc : s.pc = .recycle) :
    Works s { s with logger := s.logger.recycle, pc := .loop } :=
  .next [] 0 (by rw [work, hPc]) .refl

/-- A buffer that fits into the current file. -/
theorem works_fitting {unique : LoggerBuffer} {again : Bool} {fd : Nat} {writes : Writes}
    (hProgress : writes.Progress) (hPc : s.pc = .size unique again)
    (hRunning : s.logger.mCurrentLoggerFile.mRunning = true)
    (hFd : s.logger.mCurrentLoggerFile.mFd = some fd) (hOpen : s.closed = false)
    (hFits : s.logger.mCurrentLoggerFile.mCurrDataSize + unique.content.length ≤
      s.logger.mCurrentLoggerFile.mFileSizeLimite) :
    Works s { s with
      logger := { s.logger with
        mCurrentLoggerFile := (s.logger.mCurrentLoggerFile.archive writes unique.content).1 }
      pc := .recycle } := by
  have hSize : s.work [] 0 = { s with pc := .test unique 0 } := by
    rw [work, hPc]
    exact if_neg (Nat.not_lt.mpr hFits)
  rw [LoggerFile.archive_accepted hFits hRunning]
  exact .next [] 0 hSize (works_writes 0 hProgress rfl hRunning hFd hOpen)

/-- One that does not goes to a new file. -/
theorem works_createFile {unique : LoggerBuffer} {writes : Writes} (hProgress : writes.Progress)
    (hPc : s.pc = .createFile unique) (hRunning : s.logger.mCurrentLoggerFile.mRunning = true)
    (hOpen : s.closed = false) :
    Works s { s with
      logger := { s.logger.createFile true with
        mCurrentLoggerFile :=
          ((s.logger.createFile true).mCurrentLoggerFile.archive writes unique.content).1 }
      pc := .recycle } := by
  have hCreate : s.work [] 0 =
      { s with logger := s.logger.createFile true, pc := .size unique true } := by
    rw [work, hPc, hOpen]
  refine .next [] 0 hCreate ?_
  by_cases hFits : (s.logger.createFile true).mCurrentLoggerFile.mCurrDataSize +
      unique.content.length ≤ (s.logger.createFile true).mCurrentLoggerFile.mFileSizeLimite
  · exact works_fitting (s := { s with
      logger := s.logger.createFile true, pc := .size unique true })
      hProgress rfl hRunning rfl hOpen hFits
  · rw [LoggerFile.archive_refused writes (Nat.not_le.mp hFits)]
    exact .next [] 0 (if_pos (Nat.not_le.mp hFits)) .refl

/-- `archive`. -/
theorem works_archive {fd : Nat} {writes : Writes} (hProgress : writes.Progress)
    (hPc : s.pc = .waitAndPop) (hRunning : s.logger.mCurrentLoggerFile.mRunning = true)
    (hFd : s.logger.mCurrentLoggerFile.mFd = some fd) (hOpen : s.closed = false) :
    Works s { s with logger := s.logger.archive writes true, pc := .loop } := by
  obtain ⟨rest, hNext, -⟩ := nextFilled_spec s.logger
  have hFile : s.logger.nextFilled.2.mCurrentLoggerFile = s.logger.mCurrentLoggerFile := by
    rw [hNext]
  rw [← hFile] at hRunning hFd
  have hPop : s.work [] 0 =
      { s with logger := s.logger.nextFilled.2, pc := .size s.logger.nextFilled.1 false } := by
    rw [work, hPc]
  refine .next [] 0 hPop ?_
  by_cases hFits : s.logger.nextFilled.2.mCurrentLoggerFile.mCurrDataSize +
      s.logger.nextFilled.1.content.length ≤ s.logger.nextFilled.2.mCurrentLoggerFile.mFileSizeLimite
  · have hArchive : s.logger.archive writes true = { s.logger.nextFilled.2 with
        mCurrentLoggerFile := (s.logger.nextFilled.2.mCurrentLoggerFile.archive writes
          s.logger.nextFilled.1.content).1 }.recycle := by
      unfold Logger.archive
      dsimp only
      rw [LoggerFile.archive_accepted hFits hRunning]
      rfl
    rw [hArchive]
    exact (works_fitting (s := { s with
      logger := s.logger.nextFilled.2, pc := .size s.logger.nextFilled.1 false })
      hProgress rfl hRunning hFd hOpen hFits).trans (works_recycle rfl)
  · have hLarge := Nat.not_le.mp hFits
    have hArchive : s.logger.archive writes true = { s.logger.nextFilled.2.createFile true with
        mCurrentLoggerFile := ((s.logger.nextFilled.2.createFile true).mCurrentLoggerFile.archive
          writes s.logger.nextFilled.1.content).1 }.recycle := by
      unfold Logger.archive
      dsimp only
      rw [LoggerFile.archive_refused writes hLarge]
      rfl
    rw [hArchive]
    refine .next [] 0 (if_pos hLarge) ?_
    exact (works_createFile (s := { s with
      logger := s.logger.nextFilled.2, pc := .createFile s.logger.nextFilled.1 })
      hProgress rfl hRunning hOpen).trans (works_recycle rfl)

theorem mCurrentLoggerFile_onLine (l : Logger) (tid : ThreadId)
    (f : LoggerLine → BufferQueues → LoggerLine × BufferQueues) :
    (l.onLine tid f).mCurrentLoggerFile = l.mCurrentLoggerFile := by
  unfold Logger.onLine
  split <;> rfl

theorem mCurrentLoggerFile_timeoutPushToFile (l : Logger) (order : List ThreadId) :
    (l.timeoutPushToFile order).mCurrentLoggerFile = l.mCurrentLoggerFile := by
  have hLines : (order.foldl (fun l tid => l.onLine tid LoggerLine.pushToQueue)
      l).mCurrentLoggerFile = l.mCurrentLoggerFile := by
    induction order generalizing l with
    | nil => rfl
    | cons tid order ih =>
      exact (ih (l.onLine tid LoggerLine.pushToQueue)).trans (mCurrentLoggerFile_onLine ..)
  unfold Logger.timeoutPushToFile
  split
  · exact hLines
  · rfl

/-- `timeoutPushToFile`. -/
theorem works_timeoutPushToFile {order : List ThreadId} (hPc : s.pc = .timeout)
    (hOrder : order.Perm s.logger.mThreadIDHashset) :
    Works s { s with logger := s.logger.timeoutPushToFile order, pc := .waitAndPop } := by
  unfold Logger.timeoutPushToFile
  by_cases hTimeout : s.logger.mTimeout = true
  · have hLines : s.work order 0 = { s with pc := .lines order } := by
      rw [work, hPc]
      dsimp only
      rw [if_pos hTimeout, if_pos hOrder]
    rw [if_pos hTimeout]
    exact .next order 0 hLines (works_lines rfl)
  · have hWait : s.work order 0 = { s with pc := .waitAndPop } := by
      rw [work, hPc]
      exact if_neg hTimeout
    rw [if_neg hTimeout]
    exact .next order 0 hWait .refl

/-- **An iteration** that nobody interferes with is what the two functions do at once. -/
theorem works_iteration {order : List ThreadId} {fd : Nat} {writes : Writes}
    (hOrder : order.Perm s.logger.mThreadIDHashset) (hProgress : writes.Progress)
    (hPc : s.pc = .loop) (hLoop : s.logger.mRunning = true)
    (hRunning : s.logger.mCurrentLoggerFile.mRunning = true)
    (hFd : s.logger.mCurrentLoggerFile.mFd = some fd) (hOpen : s.closed = false) :
    Works s { s with
      logger := (s.logger.timeoutPushToFile order).archive writes true, pc := .loop } := by
  have hTest : s.work [] 0 = { s with pc := .timeout } := by
    rw [work, hPc]
    dsimp only
    rw [if_pos hLoop]
  have hFile := mCurrentLoggerFile_timeoutPushToFile s.logger order
  have hLines := works_timeoutPushToFile (s := { s with pc := .timeout }) rfl hOrder
  refine .next [] 0 hTest (hLines.trans ?_)
  exact works_archive hProgress rfl ((congrArg LoggerFile.mRunning hFile).trans hRunning)
    ((congrArg LoggerFile.mFd hFile).trans hFd) hOpen

end LoggerStop

end WarringServer.Utility
