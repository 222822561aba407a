import Mathlib.Logic.Function.Basic
import WarringServer.Lib.Run
import WarringServer.Utility.LoggerFile

/-!
# The logger

Every thread that logs has a `LoggerLine` of its own: a working buffer A, and a standby
buffer B that takes its place when A is full or the logger's timer has run out. The
full buffer goes to the filled queue; the background thread writes it to the file and
puts it, emptied, into the empty queue, from where the lines take their next standby
buffers.

The functions are taken as atomic steps here (`LoggerEvent`).

* `Inv` — what every step keeps: the buffers that stand by are empty, a working buffer
  holds bytes of its own thread only, and for each thread files, queue and working
  buffer hold what it has pushed, in order;
* `logger_conserves` — no byte is lost, duplicated or put out of order in any run with
  complete writes.
-/

namespace WarringServer.Utility

open Run

/-- The working buffer is there whenever a function of the line has returned; the standby
buffer is not, after it has been used up. -/
structure LoggerLine where
  mLoggerBufferPtrA : LoggerBuffer
  mLoggerBufferPtrB : Option LoggerBuffer

/-- The queues the lines share with the logger, front first. -/
structure BufferQueues where
  mFilled : List LoggerBuffer
  mEmpty : List LoggerBuffer

namespace LoggerLine

def new : LoggerLine := ⟨LoggerBuffer.new, some LoggerBuffer.new⟩

/-- `getEmptyBuffer`: the standby buffer, with the queues behind it. -/
def getEmptyBuffer (line : LoggerLine) (q : BufferQueues) : LoggerBuffer × BufferQueues :=
  match line.mLoggerBufferPtrB with
  | some b => (b, q)
  | none =>
      match q.mEmpty with
      | [] => (LoggerBuffer.new, q)
      | b :: rest => (b, { q with mEmpty := rest })

/-- `pushToQueue`: A and B swap, and the old A goes to the filled queue. -/
def pushToQueue (line : LoggerLine) (q : BufferQueues) : LoggerLine × BufferQueues :=
  let (b, q) := line.getEmptyBuffer q
  (⟨b, none⟩, { q with mFilled := q.mFilled ++ [line.mLoggerBufferPtrA] })

/-- `pushToBuffer`. The result of the second `push` is not looked at. -/
def pushToBuffer (line : LoggerLine) (q : BufferQueues) (msg : List LogByte) :
    LoggerLine × BufferQueues :=
  match line.mLoggerBufferPtrA.push msg with
  | some a => ({ line with mLoggerBufferPtrA := a }, q)
  | none =>
      let (b, q) := line.getEmptyBuffer q
      (⟨(b.push msg).getD b, none⟩, { q with mFilled := q.mFilled ++ [line.mLoggerBufferPtrA] })

end LoggerLine

structure Logger where
  mCurrentLoggerFile : LoggerFile
  mFileSizeLimite : Nat
  mRunning : Bool
  mTimeout : Bool
  mQueues : BufferQueues
  mLoggerLineHashtable : ThreadId → Option LoggerLine
  mThreadIDHashset : List ThreadId
  mStandbyQueueMax : Nat

namespace Logger

def create : Logger :=
  { mCurrentLoggerFile := LoggerFile.init
    mFileSizeLimite := 1024 * 1024
    mRunning := true
    mTimeout := false
    mQueues := ⟨[], []⟩
    mLoggerLineHashtable := fun _ => none
    mThreadIDHashset := []
    mStandbyQueueMax := 16 }

/-- `createFile`; `created` is whether `open` succeeds. -/
def createFile (l : Logger) (created : Bool) : Logger :=
  let file := l.mCurrentLoggerFile.createLogFile created
  { l with
    mCurrentLoggerFile := if created then file.setFileSizeLimite l.mFileSizeLimite else file }

/-- `init`, as far as the files are concerned. -/
def init (l : Logger) (fileSize : Nat) (created : Bool) : Logger :=
  let l := { l with
    mFileSizeLimite := if fileSize < l.mFileSizeLimite then l.mFileSizeLimite else fileSize }
  let l := l.createFile created
  if created then l else { l with mRunning := false }

def findLoggerLine (l : Logger) (tid : ThreadId) : Logger :=
  match l.mLoggerLineHashtable tid with
  | some _ => l
  | none =>
      { l with
        mLoggerLineHashtable := Function.update l.mLoggerLineHashtable tid (some LoggerLine.new)
        mThreadIDHashset := l.mThreadIDHashset.insert tid }

/-- A function of the line of thread `tid`, if it has one. -/
def onLine (l : Logger) (tid : ThreadId)
    (f : LoggerLine → BufferQueues → LoggerLine × BufferQueues) : Logger :=
  match l.mLoggerLineHashtable tid with
  | none => l
  | some line =>
      let (line, queues) := f line l.mQueues
      { l with
        mLoggerLineHashtable := Function.update l.mLoggerLineHashtable tid (some line)
        mQueues := queues }

/-- `timeoutPushToFile`, in the order of the hash set. -/
def timeoutPushToFile (l : Logger) (order : List ThreadId) : Logger :=
  if l.mTimeout then
    let l := order.foldl (fun l tid => l.onLine tid LoggerLine.pushToQueue) l
    { l with mTimeout := false }
  else l

/-- `waitAndPop`: a new buffer if none has been filled in time. -/
def nextFilled (l : Logger) : LoggerBuffer × Logger :=
  match l.mQueues.mFilled with
  | [] => (LoggerBuffer.new, l)
  | b :: rest => (b, { l with mQueues := { l.mQueues with mFilled := rest } })

/-- The end of `archive`: the buffer, reset, goes to the empty queue. -/
def recycle (l : Logger) : Logger :=
  if l.mQueues.mEmpty.length < l.mStandbyQueueMax then
    { l with mQueues := { l.mQueues with mEmpty := l.mQueues.mEmpty ++ [LoggerBuffer.new] } }
  else l

/-- `archive`. A buffer that does not fit into the current file goes to a new one; it
is dropped if that cannot be created. -/
def archive (l : Logger) (writes : Writes) (created : Bool) : Logger :=
  let (unique, l) := l.nextFilled
  let (file, res) := l.mCurrentLoggerFile.archive writes unique.content
  if res then { l with mCurrentLoggerFile := file }.recycle
  else
    let l := { l with mCurrentLoggerFile := file }.createFile created
    if created then
      let (file, _) := l.mCurrentLoggerFile.archive writes unique.content
      { l with mCurrentLoggerFile := file }.recycle
    else l

end Logger

-- ---------------------------------------------------------------------------
-- Runs
-- ---------------------------------------------------------------------------

/-- The atomic steps: `init`, the calls of the threads, the timer, and the two
functions of the background thread. -/
inductive LoggerEvent where
  | init (fileSize : Nat) (created : Bool)
  | setStandbyQueueMax (num : Nat)
  | findLoggerLine (tid : ThreadId)
  | pushToBuffer (tid : ThreadId) (msg : Bytes)
  | timeoutNotify
  | timeoutPushToFile (order : List ThreadId)
  | archive (writes : Writes) (created : Bool)

/-- The logger, with all that the threads have pushed so far. -/
structure LoggerRun where
  logger : Logger
  pushed : List LogByte

namespace LoggerRun

def init : LoggerRun := ⟨Logger.create, []⟩

/-- The bytes of a message of thread `tid`. -/
def mark (tid : ThreadId) (msg : Bytes) : List LogByte := msg.map (LogByte.mk tid)

/-- A thread pushes to its line, and the hash set is traversed in some order. -/
def step (s : LoggerRun) : LoggerEvent → LoggerRun
  | .init fileSize created => { s with logger := s.logger.init fileSize created }
  | .setStandbyQueueMax num => { s with logger := { s.logger with mStandbyQueueMax := num } }
  | .findLoggerLine tid => { s with logger := s.logger.findLoggerLine tid }
  | .pushToBuffer tid msg =>
      if (s.logger.mLoggerLineHashtable tid).isSome then
        { logger := s.logger.onLine tid fun line q => line.pushToBuffer q (mark tid msg)
          pushed := s.pushed ++ mark tid msg }
      else s
  | .timeoutNotify => { s with logger := { s.logger with mTimeout := true } }
  | .timeoutPushToFile order =>
      if order.Perm s.logger.mThreadIDHashset then
        { s with logger := s.logger.timeoutPushToFile order }
      else s
  | .archive writes created => { s with logger := s.logger.archive writes created }

end LoggerRun

/-- The bytes of thread `tid`. -/
def bytesOf (tid : ThreadId) (bytes : List LogByte) : Bytes :=
  (bytes.filter (·.owner = tid)).map LogByte.byte

namespace Logger

/-- The bytes in the log files, in the order of their creation. -/
def inFiles (l : Logger) : List LogByte := l.mCurrentLoggerFile.files.flatten

/-- The bytes in the filled queue, front to back. -/
def inQueue (l : Logger) : List LogByte := (l.mQueues.mFilled.map LoggerBuffer.content).flatten

/-- The bytes in the working buffer of thread `tid`. -/
def inLine (l : Logger) (tid : ThreadId) : List LogByte :=
  match l.mLoggerLineHashtable tid with
  | none => []
  | some line => line.mLoggerBufferPtrA.content

end Logger

/-- No byte is lost, duplicated or out of its order: for each thread the files, the
filled queue and its working buffer hold what it has pushed. Every other buffer is
empty. -/
structure Conserved (s : LoggerRun) : Prop where
  bytes : ∀ tid, bytesOf tid s.logger.inFiles ++ bytesOf tid s.logger.inQueue ++
    bytesOf tid (s.logger.inLine tid) = bytesOf tid s.pushed
  standby : ∀ tid line b, s.logger.mLoggerLineHashtable tid = some line →
    line.mLoggerBufferPtrB = some b → b.content = []
  empties : ∀ b ∈ s.logger.mQueues.mEmpty, b.content = []

/-- What every step keeps: the conservation itself, that a working buffer holds bytes of
its own thread only, and that every buffer fits into a file. -/
structure Inv (s : LoggerRun) : Prop extends Conserved s where
  own : ∀ tid, ∀ x ∈ s.logger.inLine tid, x.owner = tid
  current : s.logger.mCurrentLoggerFile.Current
  running : s.logger.mCurrentLoggerFile.mRunning = true
  limit : bufferCapacity ≤ s.logger.mFileSizeLimite

section

variable {tid tid' : ThreadId} {xs ys : List LogByte}

theorem bytesOf_append : bytesOf tid (xs ++ ys) = bytesOf tid xs ++ bytesOf tid ys := by
  simp [bytesOf]

/-- A thread has no bytes among those of another one. -/
theorem bytesOf_other (hOwn : ∀ x ∈ xs, x.owner = tid) (hNe : tid' ≠ tid) :
    bytesOf tid' xs = [] := by
  have hNone : xs.filter (·.owner = tid') = [] := by
    refine List.filter_eq_nil_iff.mpr ?_
    intro x hx
    rw [hOwn x hx]
    simpa using Ne.symm hNe
  rw [bytesOf, hNone, List.map_nil]

theorem owner_mark {msg : Bytes} : ∀ x ∈ LoggerRun.mark tid msg, x.owner = tid := by
  intro x hx
  obtain ⟨b, -, rfl⟩ := List.mem_map.mp hx
  rfl

end

-- ---------------------------------------------------------------------------
-- Lines
-- ---------------------------------------------------------------------------

/-- What a function of a line does: the bytes of the working buffer and of the message
go on through the queue and the new working buffer, and nothing comes to the buffers
that stand by. -/
structure Moves (line : LoggerLine) (q : BufferQueues) (msg : List LogByte)
    (r : LoggerLine × BufferQueues) : Prop where
  filled : ∃ full, r.2.mFilled = q.mFilled ++ full ∧
    (full.map LoggerBuffer.content).flatten ++ r.1.mLoggerBufferPtrA.content =
      line.mLoggerBufferPtrA.content ++ msg
  standby : ∀ b, r.1.mLoggerBufferPtrB = some b → line.mLoggerBufferPtrB = some b
  empties : r.2.mEmpty ⊆ q.mEmpty

namespace LoggerLine

section

variable {line : LoggerLine} {q : BufferQueues}
  (hStandby : ∀ b, line.mLoggerBufferPtrB = some b → b.content = [])
  (hEmpties : ∀ b ∈ q.mEmpty, b.content = [])
include hStandby hEmpties

/-- Wherever the standby buffer comes from, it is empty. -/
theorem getEmptyBuffer_spec :
    (line.getEmptyBuffer q).1.content = [] ∧
      (line.getEmptyBuffer q).2.mFilled = q.mFilled ∧
      (line.getEmptyBuffer q).2.mEmpty ⊆ q.mEmpty := by
  unfold getEmptyBuffer
  cases hB : line.mLoggerBufferPtrB with
  | some b => exact ⟨hStandby b hB, rfl, List.Subset.refl _⟩
  | none =>
    cases hQueue : q.mEmpty with
    | nil =>
      refine ⟨rfl, rfl, ?_⟩
      simp only
      rw [hQueue]
      exact List.Subset.refl _
    | cons b rest =>
      refine ⟨hEmpties b ?_, rfl, List.subset_cons_self b rest⟩
      rw [hQueue]
      exact List.mem_cons_self

theorem pushToQueue_moves : Moves line q [] (line.pushToQueue q) := by
  obtain ⟨hEmpty, hFilled, hRest⟩ := getEmptyBuffer_spec hStandby hEmpties
  refine ⟨⟨[line.mLoggerBufferPtrA], ?_, ?_⟩, ?_, hRest⟩
  · show (line.getEmptyBuffer q).2.mFilled ++ [line.mLoggerBufferPtrA] = _
    rw [hFilled]
  · show _ ++ (line.getEmptyBuffer q).1.content = _
    rw [hEmpty]
    simp
  · intro b hB
    cases hB

theorem pushToBuffer_moves {msg : List LogByte} (hMsg : msg.length < bufferCapacity) :
    Moves line q msg (line.pushToBuffer q msg) := by
  unfold pushToBuffer
  cases hPush : line.mLoggerBufferPtrA.push msg with
  | some a =>
    -- the message fits, and no buffer moves
    refine ⟨⟨[], (List.append_nil _).symm, ?_⟩, fun b hB => hB, List.Subset.refl _⟩
    rw [List.map_nil, List.flatten_nil, List.nil_append]
    exact LoggerBuffer.push_content hPush
  | none =>
    obtain ⟨hEmpty, hFilled, hRest⟩ := getEmptyBuffer_spec hStandby hEmpties
    obtain ⟨a, hA, hContent⟩ := LoggerBuffer.push_empty hEmpty hMsg
    refine ⟨⟨[line.mLoggerBufferPtrA], ?_, ?_⟩, ?_, hRest⟩
    · show (line.getEmptyBuffer q).2.mFilled ++ [line.mLoggerBufferPtrA] = _
      rw [hFilled]
    · show _ ++ (((line.getEmptyBuffer q).1.push msg).getD _).content = _
      rw [hA, Option.getD_some, hContent]
      simp
    · intro b hB
      cases hB

end

end LoggerLine

section

variable {s : LoggerRun} {tid : ThreadId}

theorem inLine_of_some {l : Logger} {line : LoggerLine}
    (hLine : l.mLoggerLineHashtable tid = some line) :
    l.inLine tid = line.mLoggerBufferPtrA.content := by
  rw [Logger.inLine, hLine]

section

variable {l : Logger} {line : LoggerLine}
  {f : LoggerLine → BufferQueues → LoggerLine × BufferQueues}
  (hLine : l.mLoggerLineHashtable tid = some line)
include hLine

theorem onLine_of_some :
    l.onLine tid f = { l with
      mLoggerLineHashtable :=
        Function.update l.mLoggerLineHashtable tid (some (f line l.mQueues).1)
      mQueues := (f line l.mQueues).2 } := by
  rw [Logger.onLine, hLine]

theorem inLine_onLine :
    (l.onLine tid f).inLine tid = (f line l.mQueues).1.mLoggerBufferPtrA.content := by
  rw [onLine_of_some hLine]
  exact inLine_of_some (Function.update_self ..)

/-- The lines of other threads are not touched. -/
theorem inLine_onLine_of_ne {tid' : ThreadId} (hNe : tid' ≠ tid) :
    (l.onLine tid f).inLine tid' = l.inLine tid' := by
  rw [onLine_of_some hLine, Logger.inLine, Logger.inLine]
  dsimp only
  rw [Function.update_of_ne hNe]

/-- Buffers that a line hands over go to the end of the queue. -/
theorem inQueue_onLine {full : List LoggerBuffer}
    (hFilled : (f line l.mQueues).2.mFilled = l.mQueues.mFilled ++ full) :
    (l.onLine tid f).inQueue = l.inQueue ++ (full.map LoggerBuffer.content).flatten := by
  rw [onLine_of_some hLine, Logger.inQueue, Logger.inQueue]
  dsimp only
  rw [hFilled, List.map_append, List.flatten_append]

end

/-- A function of a line that moves its bytes keeps the invariant, with the message
among what the thread has pushed. -/
theorem Inv.onLine {line : LoggerLine} {msg : List LogByte}
    {f : LoggerLine → BufferQueues → LoggerLine × BufferQueues} (h : Inv s)
    (hLine : s.logger.mLoggerLineHashtable tid = some line)
    (hMoves : Moves line s.logger.mQueues msg (f line s.logger.mQueues))
    (hOwn : ∀ x ∈ msg, x.owner = tid) :
    Inv ⟨s.logger.onLine tid f, s.pushed ++ msg⟩ := by
  obtain ⟨⟨full, hFilled, hBytes⟩, hStandby, hEmpties⟩ := hMoves
  have hRun := onLine_of_some (f := f) hLine
  -- whatever moves belongs to the thread of the line
  have hOld : ∀ x ∈ line.mLoggerBufferPtrA.content ++ msg, x.owner = tid := by
    intro x hx
    rcases List.mem_append.mp hx with hA | hNew
    · exact h.own tid x (inLine_of_some hLine ▸ hA)
    · exact hOwn x hNew
  rw [← hBytes] at hOld
  have hFull : ∀ x ∈ (full.map LoggerBuffer.content).flatten, x.owner = tid :=
    fun x hx => hOld x (List.mem_append_left _ hx)
  refine { bytes := ?_, standby := ?_, empties := ?_, own := ?_, current := ?_,
           running := ?_, limit := ?_ }
  · intro tid'
    have hFiles : (s.logger.onLine tid f).inFiles = s.logger.inFiles := by
      rw [hRun]
      rfl
    dsimp only
    rw [hFiles, inQueue_onLine hLine hFilled, bytesOf_append, bytesOf_append, ← h.bytes tid']
    by_cases hSame : tid' = tid
    · subst hSame
      have hMoved := congrArg (bytesOf tid') hBytes
      rw [bytesOf_append, bytesOf_append] at hMoved
      rw [inLine_onLine hLine, inLine_of_some hLine]
      simp only [List.append_assoc]
      rw [hMoved]
    · rw [inLine_onLine_of_ne hLine hSame, bytesOf_other hFull hSame, bytesOf_other hOwn hSame,
        List.append_nil, List.append_nil]
  · intro tid' line' b hLine' hB
    rw [hRun] at hLine'
    dsimp only at hLine'
    by_cases hSame : tid' = tid
    · subst hSame
      rw [Function.update_self, Option.some.injEq] at hLine'
      subst hLine'
      exact h.standby tid' line b hLine (hStandby b hB)
    · rw [Function.update_of_ne hSame] at hLine'
      exact h.standby tid' line' b hLine' hB
  · intro b hB
    rw [hRun] at hB
    exact h.empties b (hEmpties hB)
  · intro tid'
    dsimp only
    by_cases hSame : tid' = tid
    · subst hSame
      rw [inLine_onLine hLine]
      exact fun x hx => hOld x (List.mem_append_right _ hx)
    · rw [inLine_onLine_of_ne hLine hSame]
      exact h.own tid'
  · rw [hRun]
    exact h.current
  · rw [hRun]
    exact h.running
  · rw [hRun]
    exact h.limit

theorem inv_pushToQueue (h : Inv s) :
    Inv ⟨s.logger.onLine tid LoggerLine.pushToQueue, s.pushed⟩ := by
  cases hLine : s.logger.mLoggerLineHashtable tid with
  | none =>
    rw [Logger.onLine, hLine]
    exact h
  | some line =>
    have hMoves := LoggerLine.pushToQueue_moves (h.standby tid line · hLine) h.empties
    have hNext := h.onLine hLine hMoves fun x hx => by cases hx
    rw [List.append_nil] at hNext
    exact hNext

theorem inv_timeoutPushToFile (h : Inv s) (order : List ThreadId) :
    Inv ⟨s.logger.timeoutPushToFile order, s.pushed⟩ := by
  -- one line after the other
  have hAll : ∀ l, Inv ⟨l, s.pushed⟩ →
      Inv ⟨order.foldl (fun l tid => l.onLine tid LoggerLine.pushToQueue) l, s.pushed⟩ := by
    induction order with
    | nil => exact fun l hl => hl
    | cons tid order ih => exact fun l hl => ih _ (inv_pushToQueue hl)
  unfold Logger.timeoutPushToFile
  split
  · obtain ⟨hConserved, hOwn, hCurrent, hRunning, hLimit⟩ := hAll s.logger h
    exact ⟨⟨hConserved.bytes, hConserved.standby, hConserved.empties⟩,
      hOwn, hCurrent, hRunning, hLimit⟩
  · exact h

end

-- ---------------------------------------------------------------------------
-- Files
-- ---------------------------------------------------------------------------

section

variable {s : LoggerRun}

/-- The buffer taken from the queue and the rest of the queue. -/
theorem nextFilled_spec (l : Logger) :
    ∃ rest, l.nextFilled.2 = { l with mQueues := { l.mQueues with mFilled := rest } } ∧
      l.inQueue = l.nextFilled.1.content ++ (rest.map LoggerBuffer.content).flatten := by
  unfold Logger.nextFilled
  cases hFilled : l.mQueues.mFilled with
  | nil =>
    refine ⟨[], ?_, ?_⟩
    · show l = { l with mQueues := { l.mQueues with mFilled := [] } }
      rw [← hFilled]
    · rw [Logger.inQueue, hFilled]
      rfl
  | cons b rest =>
    refine ⟨rest, rfl, ?_⟩
    rw [Logger.inQueue, hFilled]
    rfl

/-- With complete writes and files that can be created, `archive` appends the content of
the buffer to the files, in the current one or in a new one. -/
theorem archive_spec (h : Inv s) {writes : Writes} (hWrites : writes.Complete) :
    ∃ file : LoggerFile, file.Current ∧ file.mRunning = true ∧
      file.files.flatten = s.logger.inFiles ++ s.logger.nextFilled.1.content ∧
      s.logger.archive writes true =
        { s.logger.nextFilled.2 with mCurrentLoggerFile := file }.recycle := by
  obtain ⟨rest, hNext, -⟩ := nextFilled_spec s.logger
  obtain ⟨unique, hUnique⟩ : ∃ b, s.logger.nextFilled.1 = b := ⟨_, rfl⟩
  have hFile : s.logger.nextFilled.2.mCurrentLoggerFile = s.logger.mCurrentLoggerFile := by
    rw [hNext]
  by_cases hFits : s.logger.mCurrentLoggerFile.mCurrDataSize + unique.content.length ≤
      s.logger.mCurrentLoggerFile.mFileSizeLimite
  · obtain ⟨hRes, hFlatten, hCurrent, hRunning⟩ :=
      LoggerFile.archive_complete h.current h.running hWrites hFits
    refine ⟨_, hCurrent, hRunning, by rw [hUnique]; exact hFlatten, ?_⟩
    rw [Logger.archive]
    dsimp only
    rw [hUnique, hFile, if_pos hRes]
  · -- the buffer goes to a new file, which is large enough for it
    let fresh := (s.logger.mCurrentLoggerFile.createLogFile true).setFileSizeLimite
      s.logger.mFileSizeLimite
    have hRefused := LoggerFile.archive_refused writes (Nat.not_le.mp hFits)
    have hLength := unique.fits
    have hLimit := h.limit
    have hRoom : fresh.mCurrDataSize + unique.content.length ≤ fresh.mFileSizeLimite := by
      show 0 + unique.content.length ≤ s.logger.mFileSizeLimite
      omega
    obtain ⟨-, hFlatten, hCurrent, hRunning⟩ :=
      LoggerFile.archive_complete (f := fresh) (LoggerFile.current_createLogFile _) h.running
        hWrites hRoom
    refine ⟨_, hCurrent, hRunning, ?_, ?_⟩
    · rw [hUnique, hFlatten]
      show (s.logger.mCurrentLoggerFile.files ++ [[]]).flatten ++ _ = _
      simp [Logger.inFiles]
    · rw [Logger.archive]
      dsimp only
      rw [hUnique, hFile, hRefused]
      dsimp only
      rw [if_neg (by decide), if_pos rfl, hNext]
      rfl

theorem inv_recycle (h : Inv s) : Inv ⟨s.logger.recycle, s.pushed⟩ := by
  unfold Logger.recycle
  split
  · obtain ⟨⟨hBytes, hStandby, hEmpties⟩, hOwn, hCurrent, hRunning, hLimit⟩ := h
    refine ⟨⟨hBytes, hStandby, ?_⟩, hOwn, hCurrent, hRunning, hLimit⟩
    intro b hB
    rcases List.mem_append.mp hB with hOld | hNew
    · exact hEmpties b hOld
    · rw [List.mem_singleton.mp hNew]
      rfl
  · exact h

theorem inv_archive (h : Inv s) {writes : Writes} (hWrites : writes.Complete) :
    Inv ⟨s.logger.archive writes true, s.pushed⟩ := by
  obtain ⟨file, hCurrent, hRunning, hFlatten, hRun⟩ := archive_spec h hWrites
  obtain ⟨rest, hNext, hQueue⟩ := nextFilled_spec s.logger
  rw [hRun, hNext]
  refine inv_recycle (s := ⟨_, s.pushed⟩) ?_
  refine ⟨⟨fun tid => ?_, h.standby, h.empties⟩, h.own, hCurrent, hRunning, h.limit⟩
  -- the front of the queue has become the end of the files
  rw [← h.bytes tid, hQueue]
  show bytesOf tid file.files.flatten ++ bytesOf tid (rest.map LoggerBuffer.content).flatten ++
    bytesOf tid (s.logger.inLine tid) = _
  rw [hFlatten, bytesOf_append, bytesOf_append]
  simp only [List.append_assoc]

theorem inv_createFile (h : Inv s) : Inv ⟨s.logger.createFile true, s.pushed⟩ := by
  obtain ⟨⟨hBytes, hStandby, hEmpties⟩, hOwn, -, hRunning, hLimit⟩ := h
  refine ⟨⟨fun tid => ?_, hStandby, hEmpties⟩, hOwn, LoggerFile.current_createLogFile _,
    hRunning, hLimit⟩
  have hFiles : (s.logger.createFile true).inFiles = s.logger.inFiles := by
    show (s.logger.mCurrentLoggerFile.files ++ [[]]).flatten = _
    simp [Logger.inFiles]
  dsimp only
  rw [hFiles]
  exact hBytes tid

theorem inv_init (h : Inv s) (fileSize : Nat) : Inv ⟨s.logger.init fileSize true, s.pushed⟩ := by
  obtain ⟨⟨hBytes, hStandby, hEmpties⟩, hOwn, hCurrent, hRunning, hLimit⟩ := h
  refine inv_createFile (s := ⟨_, s.pushed⟩)
    ⟨⟨hBytes, hStandby, hEmpties⟩, hOwn, hCurrent, hRunning, ?_⟩
  dsimp only
  split <;> omega

theorem inv_findLoggerLine (h : Inv s) (tid : ThreadId) :
    Inv ⟨s.logger.findLoggerLine tid, s.pushed⟩ := by
  unfold Logger.findLoggerLine
  cases hLine : s.logger.mLoggerLineHashtable tid with
  | some line => exact h
  | none =>
    obtain ⟨⟨hBytes, hStandby, hEmpties⟩, hOwn, hCurrent, hRunning, hLimit⟩ := h
    -- a new line has two empty buffers, so no thread sees a change
    have hSame (tid' : ThreadId) : ({ s.logger with
        mLoggerLineHashtable :=
          Function.update s.logger.mLoggerLineHashtable tid (some LoggerLine.new)
        mThreadIDHashset := s.logger.mThreadIDHashset.insert tid } : Logger).inLine tid' =
        s.logger.inLine tid' := by
      rw [Logger.inLine, Logger.inLine]
      dsimp only
      by_cases hNe : tid' = tid
      · subst hNe
        rw [Function.update_self, hLine]
        rfl
      · rw [Function.update_of_ne hNe]
    refine ⟨⟨fun tid' => ?_, fun tid' line b hFind hB => ?_, hEmpties⟩, ?_, hCurrent, hRunning,
      hLimit⟩
    · rw [hSame]
      exact hBytes tid'
    · by_cases hNe : tid' = tid
      · subst hNe
        dsimp only at hFind
        rw [Function.update_self, Option.some.injEq] at hFind
        subst hFind
        cases hB
        rfl
      · dsimp only at hFind
        rw [Function.update_of_ne hNe] at hFind
        exact hStandby tid' line b hFind hB
    · intro tid'
      rw [hSame]
      exact hOwn tid'

end

-- ---------------------------------------------------------------------------
-- Conservation
-- ---------------------------------------------------------------------------

/-- Messages are shorter than a buffer, every write is complete and every file can be
created. -/
def LoggerEvent.Undisturbed : LoggerEvent → Prop
  | .init _ created => created = true
  | .pushToBuffer _ msg => msg.length < bufferCapacity
  | .archive writes created => writes.Complete ∧ created = true
  | _ => True

/-- **One step.** -/
theorem inv_step {s : LoggerRun} {e : LoggerEvent} (h : Inv s) (hEvent : e.Undisturbed) :
    Inv (s.step e) := by
  cases e with
  | init fileSize created =>
    cases hEvent
    exact inv_init h fileSize
  | setStandbyQueueMax num => exact ⟨⟨h.bytes, h.standby, h.empties⟩, h.own, h.current,
      h.running, h.limit⟩
  | findLoggerLine tid => exact inv_findLoggerLine h tid
  | pushToBuffer tid msg =>
    show Inv (if _ then _ else _)
    split
    next hSome =>
      obtain ⟨line, hLine⟩ := Option.isSome_iff_exists.mp hSome
      have hMsg : (LoggerRun.mark tid msg).length < bufferCapacity := by
        rw [LoggerRun.mark, List.length_map]
        exact hEvent
      have hMoves := LoggerLine.pushToBuffer_moves (h.standby tid line · hLine) h.empties hMsg
      exact h.onLine (f := fun line q => line.pushToBuffer q (LoggerRun.mark tid msg)) hLine
        hMoves owner_mark
    next => exact h
  | timeoutNotify => exact ⟨⟨h.bytes, h.standby, h.empties⟩, h.own, h.current,
      h.running, h.limit⟩
  | timeoutPushToFile order =>
    show Inv (if _ then _ else _)
    split
    · exact inv_timeoutPushToFile h order
    · exact h
  | archive writes created =>
    obtain ⟨hWrites, hCreated⟩ := hEvent
    subst hCreated
    exact inv_archive h hWrites

theorem inv_create : Inv LoggerRun.init :=
  { bytes := fun _ => rfl
    standby := fun _ _ _ hLine => by cases hLine
    empties := fun _ hB => by cases hB
    own := fun _ _ hx => by cases hx
    current := LoggerFile.current_init
    running := rfl
    limit := by decide }

/-- **Conservation.** However the threads, the timer and the background thread take
their turns, no byte is lost, duplicated or put out of order. -/
theorem logger_conserves (es : List LoggerEvent) (hEvents : ∀ e ∈ es, e.Undisturbed) :
    Always LoggerRun.step Conserved LoggerRun.init es :=
  (always_of_each (C := fun _ e => e.Undisturbed) (fun _ es => ∀ e ∈ es, e.Undisturbed)
    (fun _ _ _ hRest _ _ => fun e he => hRest e (List.mem_cons_of_mem _ he))
    (fun _ _ _ _ hInv hStep => inv_step hInv hStep) inv_create hEvents
    (each_of_forall hEvents)).imp fun _ hInv => hInv.toConserved

/-- Two threads log, and the timer flushes both lines into the file. -/
theorem logger_conserves_flush :
    Always LoggerRun.step Conserved LoggerRun.init
      [.init 0 true, .findLoggerLine 1, .findLoggerLine 2, .pushToBuffer 1 [65],
        .pushToBuffer 2 [66], .pushToBuffer 1 [67], .timeoutNotify, .timeoutPushToFile [2, 1],
        .archive (fun _ requested => some (Fin.last requested)) true,
        .archive (fun _ requested => some (Fin.last requested)) true] := by
  refine logger_conserves _ ?_
  intro e he
  have hComplete : Writes.Complete fun _ requested => some (Fin.last requested) :=
    fun _ _ => rfl
  simp only [List.mem_cons, List.not_mem_nil, or_false] at he
  rcases he with rfl | rfl | rfl | rfl | rfl | rfl | rfl | rfl | rfl | rfl
  · rfl
  · trivial
  · trivial
  · show [65].length < bufferCapacity
    decide
  · show [66].length < bufferCapacity
    decide
  · show [67].length < bufferCapacity
    decide
  · trivial
  · trivial
  · exact ⟨hComplete, rfl⟩
  · exact ⟨hComplete, rfl⟩

end WarringServer.Utility
