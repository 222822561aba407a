import Mathlib.Logic.Function.Iterate
import WarringServer.Utility.Logger

/-!
# Log files under short writes

`write` may take fewer bytes than it is given. `LoggerFile::archive` calls it until nothing
remains, but every call starts from the beginning of the buffer.

* `WriteState.terminates` — the loop comes to its end, whatever the calls return;
* `archive_appends_iff` — the buffer is appended exactly if each call happens to begin with
  the bytes that were its turn;
* `log_files_bounded` — the counters are right all the same: no file passes its limit.
-/

namespace WarringServer.Utility

open Run

/-- Every call that is given something takes some of it. -/
def Writes.Progress (writes : Writes) : Prop :=
  ∀ call requested, ∃ sz, writes call requested = some sz ∧ (requested ≠ 0 → sz.val ≠ 0)

/-- The calls of the loop in `archive` that write something: `curr` before the call, and the
bytes it takes. -/
def accepted (writes : Writes) (len call curr : Nat) : List (Nat × Nat) :=
  match writes call (len - curr) with
  | some sz =>
      if sz.val = 0 then []
      else (curr, sz.val) :: accepted writes len (call + 1) (curr + sz.val)
  | none => []
termination_by len - curr
decreasing_by
  have hLt := sz.isLt
  omega

section

variable {f : LoggerFile} {writes : Writes} {buff : List LogByte} {fd len call curr : Nat}

/-- What one call leaves. -/
def LoggerFile.written (f : LoggerFile) (fd : Nat) (bytes : List LogByte) (sz : Nat) : LoggerFile :=
  { f with
    files := f.files.modify fd (· ++ bytes)
    mCurrDataSize := f.mCurrDataSize + sz }

theorem LoggerFile.writeLoop_more {sz : Fin (len - curr + 1)} (hFd : f.mFd = some fd)
    (hSz : writes call (len - curr) = some sz) (hMore : sz.val ≠ 0) :
    writeLoop writes buff len call curr f = writeLoop writes buff len (call + 1) (curr + sz.val)
      (f.written fd (buff.take sz.val) sz.val) := by
  rw [writeLoop]
  simp only [hFd, hSz, if_neg hMore, written]

theorem LoggerFile.writeLoop_stop
    (hStop : ∀ sz, f.mFd.isSome → writes call (len - curr) = some sz → sz.val = 0) :
    writeLoop writes buff len call curr f = f := by
  rw [writeLoop]
  split
  · rename_i hFd hSz
    exact if_pos (hStop _ (by rw [hFd]; rfl) hSz)
  · rfl

theorem accepted_more {sz : Fin (len - curr + 1)} (hSz : writes call (len - curr) = some sz)
    (hMore : sz.val ≠ 0) : accepted writes len call curr =
      (curr, sz.val) :: accepted writes len (call + 1) (curr + sz.val) := by
  rw [accepted]
  simp only [hSz, if_neg hMore]

theorem accepted_stop (hStop : ∀ sz, writes call (len - curr) = some sz → sz.val = 0) :
    accepted writes len call curr = [] := by
  rw [accepted]
  split
  · rename_i sz hSz
    exact if_pos (hStop sz hSz)
  · rfl

/-- A call writes something, or the loop is left after it. -/
theorem call_cases (writes : Writes) (call requested : Nat) :
    (∃ sz, writes call requested = some sz ∧ sz.val ≠ 0) ∨
      ∀ sz, writes call requested = some sz → sz.val = 0 := by
  by_cases hMore : ∃ sz, writes call requested = some sz ∧ sz.val ≠ 0
  · exact Or.inl hMore
  · refine Or.inr ?_
    intro sz hSz
    by_contra hNonzero
    exact hMore ⟨sz, hSz, hNonzero⟩

end

-- ---------------------------------------------------------------------------
-- The loop
-- ---------------------------------------------------------------------------

/-- The loop of `archive`, between two calls. -/
structure WriteState where
  file : LoggerFile
  call : Nat
  curr : Nat
  left : Bool

namespace WriteState

/-- The body of the loop. -/
def iterate (writes : Writes) (buff : List LogByte) (s : WriteState) : WriteState :=
  if s.left then s
  else
    match s.file.mFd, writes s.call (buff.length - s.curr) with
    | some fd, some sz =>
        if sz.val = 0 then { s with left := true }
        else
          { file := s.file.written fd (buff.take sz.val) sz.val
            call := s.call + 1
            curr := s.curr + sz.val
            left := false }
    | _, _ => { s with left := true }

/-- The loop comes to its end after at most one call for each byte that remains, and another
one. -/
theorem terminates (writes : Writes) (buff : List LogByte) (call curr : Nat) (f : LoggerFile) :
    ∃ k ≤ buff.length - curr + 1, ∃ s : WriteState, s.left = true ∧
      (iterate writes buff)^[k] ⟨f, call, curr, false⟩ = s ∧
        s.file = LoggerFile.writeLoop writes buff buff.length call curr f := by
  induction hRemain : buff.length - curr using Nat.strongRecOn generalizing call curr f with
  | ind remain ih =>
    cases hFd : f.mFd with
    | none =>
      refine ⟨1, Nat.le_add_left .., ⟨f, call, curr, true⟩, rfl, ?_, ?_⟩
      · simp [iterate, hFd]
      · rw [LoggerFile.writeLoop_stop fun sz hOpen => by rw [hFd] at hOpen; cases hOpen]
    | some fd =>
      rcases call_cases writes call (buff.length - curr) with ⟨sz, hSz, hMore⟩ | hStop
      · -- the rest of the loop has fewer bytes left
        have hLt := sz.isLt
        obtain ⟨k, hk, s, hLeft, hRun, hFile⟩ := ih (buff.length - (curr + sz.val)) (by omega)
          (call + 1) (curr + sz.val) (f.written fd (buff.take sz.val) sz.val) rfl
        refine ⟨k + 1, by omega, s, hLeft, ?_, ?_⟩
        · rw [Function.iterate_succ_apply, ← hRun]
          simp only [iterate, hFd, hSz, if_neg hMore, Bool.false_eq_true, if_false]
        · rw [hFile, LoggerFile.writeLoop_more hFd hSz hMore]
      · refine ⟨1, Nat.le_add_left .., ⟨f, call, curr, true⟩, rfl, ?_, ?_⟩
        · rw [Function.iterate_one, iterate, if_neg Bool.false_ne_true]
          dsimp only
          split
          · rename_i hSz
            rw [if_pos (hStop _ hSz)]
          · rfl
        · rw [LoggerFile.writeLoop_stop fun sz _ => hStop sz]

end WriteState

namespace LoggerFile

/-- `archive` returns `true` only after it has appended the buffer to the current file, each
byte once and in order; and its loop comes to an end, with the file that is left then. -/
structure Appends (f : LoggerFile) (fd : Nat) (writes : Writes) (buff : List LogByte) : Prop where
  appended : (f.archive writes buff).2 = true →
    (f.archive writes buff).1.files = f.files.modify fd (· ++ buff)
  ends : ∃ k, ((WriteState.iterate writes buff)^[k] ⟨f, 0, 0, false⟩).left = true ∧
    ((WriteState.iterate writes buff)^[k] ⟨f, 0, 0, false⟩).file =
      writeLoop writes buff buff.length 0 0 f

/-- The first bytes of the buffer, as many as each call takes, are those it should take. -/
def InPlace (writes : Writes) (buff : List LogByte) : Prop :=
  ∀ c ∈ accepted writes buff.length 0 0, buff.take c.2 = (buff.drop c.1).take c.2

section

variable {f : LoggerFile} {writes : Writes} {buff : List LogByte} {fd : Nat}

theorem modify_append_nil (files : List (List LogByte)) (fd : Nat) :
    files.modify fd (· ++ []) = files := by
  simp only [List.append_nil]
  exact List.modify_id fd files

theorem files_writeLoop (hFd : f.mFd = some fd) (call curr : Nat) :
    (writeLoop writes buff buff.length call curr f).files =
      f.files.modify fd (· ++ (accepted writes buff.length call curr).flatMap fun c =>
        buff.take c.2) := by
  induction hRemain : buff.length - curr using Nat.strongRecOn generalizing call curr f with
  | ind remain ih =>
    rcases call_cases writes call (buff.length - curr) with ⟨sz, hSz, hMore⟩ | hStop
    · have hLt := sz.isLt
      rw [writeLoop_more hFd hSz hMore, accepted_more hSz hMore, List.flatMap_cons,
        ih (buff.length - (curr + sz.val)) (by omega) (f := f.written fd (buff.take sz.val) sz.val)
          hFd _ _ rfl, written]
      dsimp only
      rw [List.modify_modify_eq]
      refine congrArg (f.files.modify fd) (funext fun file => ?_)
      exact List.append_assoc ..
    · rw [writeLoop_stop fun sz _ => hStop sz, accepted_stop hStop, List.flatMap_nil,
        modify_append_nil]

/-- What is written is what remains exactly if every call is in place. -/
theorem flatMap_accepted (hProgress : writes.Progress) (call curr : Nat) :
    ((accepted writes buff.length call curr).flatMap fun c => buff.take c.2) = buff.drop curr ↔
      ∀ c ∈ accepted writes buff.length call curr, buff.take c.2 = (buff.drop c.1).take c.2 := by
  induction hRemain : buff.length - curr using Nat.strongRecOn generalizing call curr with
  | ind remain ih =>
    obtain ⟨sz, hSz, hSome⟩ := hProgress call (buff.length - curr)
    by_cases hMore : sz.val = 0
    · -- no call takes nothing while something remains
      have hDone : buff.length - curr = 0 := by
        by_contra hLeft
        exact hSome hLeft hMore
      have hStop : ∀ sz', writes call (buff.length - curr) = some sz' → sz'.val = 0 := by
        intro sz' hSz'
        rw [← Option.some.inj (hSz.symm.trans hSz'), hMore]
      rw [accepted_stop hStop, List.flatMap_nil, List.drop_eq_nil_of_le (by omega)]
      exact iff_of_true rfl fun c hMem => nomatch hMem
    · have hLt := sz.isLt
      have hSplit : buff.drop curr =
          (buff.drop curr).take sz.val ++ buff.drop (curr + sz.val) := by
        rw [← List.drop_drop, List.take_append_drop]
      have hLength : (buff.take sz.val).length = ((buff.drop curr).take sz.val).length := by
        rw [List.length_take, List.length_take, List.length_drop]
        omega
      rw [accepted_more hSz hMore, List.flatMap_cons, hSplit, List.forall_mem_cons,
        ← ih (buff.length - (curr + sz.val)) (by omega) (call + 1) (curr + sz.val) rfl]
      constructor
      · exact fun hAll => List.append_inj hAll hLength
      · rintro ⟨hFirst, hRest⟩
        rw [hFirst, hRest]

/-- The appended bytes can be read off the files. -/
theorem modify_append_inj {files : List (List LogByte)} (hFile : fd < files.length)
    {xs ys : List LogByte} : files.modify fd (· ++ xs) = files.modify fd (· ++ ys) ↔ xs = ys := by
  constructor
  · intro hSame
    have hGet := congrArg (·[fd]?) hSame
    simp only [List.getElem?_modify_eq, List.getElem?_eq_getElem hFile] at hGet
    exact List.append_cancel_left (Option.some.inj hGet)
  · rintro rfl
    rfl

/-- **Archiving under short writes.** The buffer is appended as it is exactly if it does not fit,
so that `archive` returns `false`, or if the calls are in place; a closed file takes nothing. -/
theorem archive_appends_iff (hFd : f.mFd = some fd) (hFile : fd < f.files.length)
    (hProgress : writes.Progress) : f.Appends fd writes buff ↔
      (f.mCurrDataSize + buff.length ≤ f.mFileSizeLimite →
        if f.mRunning then InPlace writes buff else buff = []) := by
  obtain ⟨k, -, s, hLeft, hRun, hFile'⟩ := WriteState.terminates writes buff 0 0 f
  have hEnds : ∃ k, ((WriteState.iterate writes buff)^[k] ⟨f, 0, 0, false⟩).left = true ∧
      ((WriteState.iterate writes buff)^[k] ⟨f, 0, 0, false⟩).file =
        writeLoop writes buff buff.length 0 0 f :=
    ⟨k, by rw [hRun, hLeft], by rw [hRun, hFile']⟩
  have hWritten : (writeLoop writes buff buff.length 0 0 f).files = f.files.modify fd (· ++ buff) ↔
      InPlace writes buff := by
    rw [files_writeLoop hFd, modify_append_inj hFile]
    exact flatMap_accepted hProgress 0 0
  by_cases hFits : f.mCurrDataSize + buff.length ≤ f.mFileSizeLimite
  · cases hRunning : f.mRunning with
    | true =>
      have hArchive : f.archive writes buff = (writeLoop writes buff buff.length 0 0 f, true) :=
        archive_accepted hFits hRunning
      refine ⟨?_, fun hInPlace => ⟨fun _ => ?_, hEnds⟩⟩
      · rintro ⟨hAppended, _⟩ _
        rw [hArchive] at hAppended
        exact hWritten.mp (hAppended rfl)
      · rw [hArchive]
        exact hWritten.mpr (hInPlace hFits)
    | false =>
      have hArchive : f.archive writes buff = (f, true) := by
        rw [archive, if_neg (Nat.not_lt.mpr hFits), hRunning]
        rfl
      have hNothing : f.files = f.files.modify fd (· ++ buff) ↔ buff = [] := by
        conv_lhs => lhs; rw [← modify_append_nil f.files fd]
        exact (modify_append_inj hFile).trans eq_comm
      refine ⟨?_, fun hEmpty => ⟨fun _ => ?_, hEnds⟩⟩
      · rintro ⟨hAppended, _⟩ _
        rw [hArchive] at hAppended
        exact hNothing.mp (hAppended rfl)
      · rw [hArchive]
        exact hNothing.mpr (hEmpty hFits)
  · have hArchive : f.archive writes buff = (f, false) :=
      archive_refused writes (Nat.not_le.mp hFits)
    refine iff_of_true ⟨fun hTrue => ?_, hEnds⟩ fun hLe => absurd hLe hFits
    rw [hArchive] at hTrue
    cases hTrue

end

end LoggerFile

/-- One byte a call. -/
def bytewise : Writes := fun _ requested => some ⟨min 1 requested, by omega⟩

theorem progress_bytewise : bytewise.Progress := by
  refine fun call requested => ⟨_, rfl, fun hSome => ?_⟩
  dsimp only
  omega

/-- A file with room for a buffer. -/
def oneFile : LoggerFile :=
  { files := [[]], mFd := some 0, mFileSizeLimite := 1024 * 1024, mCurrDataSize := 0,
    mRunning := true }

theorem accepted_bytewise : accepted bytewise 2 0 0 = [(0, 1), (1, 1)] := by
  rw [accepted_more (by rfl) (by decide), accepted_more (by rfl) (by decide),
    accepted_stop fun sz _ => Nat.lt_one_iff.mp sz.isLt]
  rfl

/-- A call for each byte does no harm to a buffer of equal bytes. -/
theorem archive_appends_equal : oneFile.Appends 0 bytewise (List.replicate 2 ⟨0, 97⟩) := by
  refine (LoggerFile.archive_appends_iff rfl (by decide) progress_bytewise).mpr ?_
  intro _
  show LoggerFile.InPlace bytewise (List.replicate 2 ⟨0, 97⟩)
  rw [LoggerFile.InPlace, List.length_replicate, accepted_bytewise]
  decide

/-- Of two bytes, the first one is written twice. -/
theorem not_archive_appends : ¬ ∀ (f : LoggerFile) (fd : Nat) (writes : Writes)
    (buff : List LogByte), f.mFd = some fd → fd < f.files.length → f.mRunning = true →
      writes.Progress → f.Appends fd writes buff := by
  intro h
  have hAppended := (h oneFile 0 bytewise [⟨0, 97⟩, ⟨0, 98⟩] rfl (by decide) rfl
    progress_bytewise).appended
  rw [LoggerFile.archive_accepted (by decide) rfl] at hAppended
  have hFiles := (LoggerFile.files_writeLoop rfl 0 0).symm.trans (hAppended rfl)
  rw [show [(⟨0, 97⟩ : LogByte), ⟨0, 98⟩].length = 2 from rfl, accepted_bytewise] at hFiles
  exact absurd hFiles (by decide)

-- ---------------------------------------------------------------------------
-- The limit
-- ---------------------------------------------------------------------------

/-- No file is larger than the limit, and the counter is right for the current one, if there
is one yet. -/
structure LoggerFile.Counted (f : LoggerFile) (limit : Nat) : Prop where
  bounded : ∀ file ∈ f.files, file.length ≤ limit
  current : f.mFd = none ∨ ∃ older current, f.files = older ++ [current] ∧
    f.mFd = some older.length ∧ f.mCurrDataSize = current.length ∧ f.mFileSizeLimite = limit

namespace LoggerFile

variable {f : LoggerFile} {limit : Nat} {writes : Writes} {buff : List LogByte}

/-- One call. -/
theorem Counted.written (h : f.Counted limit) {fd : Nat} {bytes : List LogByte}
    (hFd : f.mFd = some fd) (hRoom : f.mCurrDataSize + bytes.length ≤ limit) :
    (f.written fd bytes bytes.length).Counted limit := by
  rcases h.current with hNone | ⟨older, current, hFiles, hOpen, hSize, hLimit⟩
  · rw [hFd] at hNone
    cases hNone
  · obtain rfl : fd = older.length := Option.some.inj (hFd.symm.trans hOpen)
    have hWritten : f.files.modify older.length (· ++ bytes) = older ++ [current ++ bytes] := by
      rw [hFiles, modify_last]
    rw [hSize, ← List.length_append] at hRoom
    refine ⟨?_, Or.inr ⟨older, current ++ bytes, hWritten, hOpen, ?_, hLimit⟩⟩
    · intro file hMem
      rw [LoggerFile.written] at hMem
      dsimp only at hMem
      rw [hWritten] at hMem
      rcases List.mem_append.mp hMem with hOlder | hCurrent
      · exact h.bounded file (hFiles ▸ List.mem_append_left _ hOlder)
      · rw [List.mem_singleton.mp hCurrent]
        exact hRoom
    · rw [List.length_append, ← hSize]
      rfl

/-- The loop never writes more than remains of the buffer. -/
theorem Counted.writeLoop (h : f.Counted limit) (call curr : Nat)
    (hRoom : f.mFd.isSome → f.mCurrDataSize + (buff.length - curr) ≤ limit) :
    (writeLoop writes buff buff.length call curr f).Counted limit := by
  induction hRemain : buff.length - curr using Nat.strongRecOn generalizing call curr f with
  | ind remain ih =>
    cases hFd : f.mFd with
    | none =>
      rw [writeLoop_stop fun sz hOpen => by rw [hFd] at hOpen; cases hOpen]
      exact h
    | some fd =>
      rcases call_cases writes call (buff.length - curr) with ⟨sz, hSz, hMore⟩ | hStop
      · have hLt := sz.isLt
        have hLength : (buff.take sz.val).length = sz.val := by
          rw [List.length_take]
          omega
        have hRoom' := hRoom (by rw [hFd]; rfl)
        have hWritten : (f.written fd (buff.take sz.val) (buff.take sz.val).length).Counted limit :=
          h.written hFd (by omega)
        rw [hLength] at hWritten
        rw [writeLoop_more hFd hSz hMore]
        refine ih (buff.length - (curr + sz.val)) (by omega) hWritten _ _ (fun _ => ?_) rfl
        show f.mCurrDataSize + sz.val + _ ≤ limit
        omega
      · rw [writeLoop_stop fun sz _ => hStop sz]
        exact h

theorem Counted.archive (h : f.Counted limit) (writes : Writes) (buff : List LogByte) :
    (f.archive writes buff).1.Counted limit := by
  unfold LoggerFile.archive
  dsimp only
  split
  · exact h
  · rename_i hFits
    split
    · refine h.writeLoop 0 0 ?_
      intro hOpen
      rcases h.current with hNone | ⟨older, current, -, -, -, hLimit⟩
      · rw [hNone] at hOpen
        cases hOpen
      · omega
    · exact h

/-- A new file is empty. -/
theorem Counted.createLogFile {limit' : Nat} (h : f.Counted limit) (hLimit : limit ≤ limit') :
    ((f.createLogFile true).setFileSizeLimite limit').Counted limit' := by
  refine ⟨fun file hMem => ?_, Or.inr ⟨f.files, [], rfl, rfl, rfl, rfl⟩⟩
  rcases List.mem_append.mp hMem with hOld | hNew
  · exact Nat.le_trans (h.bounded file hOld) hLimit
  · rw [List.mem_singleton.mp hNew]
    exact Nat.zero_le limit'

end LoggerFile

namespace Logger

/-- The files keep the logger's limit, and `mCurrDataSize` is the size of the current one. -/
structure Bounded (l : Logger) : Prop where
  files : ∀ file ∈ l.mCurrentLoggerFile.files, file.length ≤ l.mFileSizeLimite
  current : ∀ fd, l.mCurrentLoggerFile.mFd = some fd → ∃ file,
    l.mCurrentLoggerFile.files[fd]? = some file ∧ l.mCurrentLoggerFile.mCurrDataSize = file.length

def Counted (l : Logger) : Prop := l.mCurrentLoggerFile.Counted l.mFileSizeLimite

variable {l l' : Logger}

theorem Counted.bounded (h : l.Counted) : l.Bounded := by
  refine ⟨h.1, fun fd hFd => ?_⟩
  rcases h.current with hNone | ⟨older, current, hFiles, hOpen, hSize, -⟩
  · rw [hFd] at hNone
    cases hNone
  · obtain rfl : fd = older.length := Option.some.inj (hFd.symm.trans hOpen)
    exact ⟨current, by rw [hFiles, List.getElem?_concat_length], hSize⟩

/-- What the counter is compared with the limit for fits a `size_t` as long as the limit is
one that a file can have. -/
theorem Bounded.no_wrap (h : l.Bounded) {fd : Nat} (hFd : l.mCurrentLoggerFile.mFd = some fd)
    (hLimit : l.mFileSizeLimite < 2 ^ 63) (buffer : LoggerBuffer) :
    (l.mCurrentLoggerFile.mCurrDataSize + buffer.getSize) % 2 ^ 64 =
      l.mCurrentLoggerFile.mCurrDataSize + buffer.getSize := by
  obtain ⟨file, hFile, hSize⟩ := h.current fd hFd
  have hFileLimit := h.files file (List.mem_of_getElem? hFile)
  have hFits : buffer.getSize < 40960 := buffer.fits
  exact Nat.mod_eq_of_lt (by omega)

theorem Counted.onLine (h : l.Counted) (tid : ThreadId)
    (f : LoggerLine → BufferQueues → LoggerLine × BufferQueues) : (l.onLine tid f).Counted := by
  unfold Logger.onLine
  split
  · exact h
  · exact h

theorem Counted.timeoutPushToFile (h : l.Counted) (order : List ThreadId) :
    (l.timeoutPushToFile order).Counted := by
  have hAll : ∀ l : Logger, l.Counted →
      (order.foldl (fun l tid => l.onLine tid LoggerLine.pushToQueue) l).Counted := by
    induction order with
    | nil => exact fun l hl => hl
    | cons tid order ih => exact fun l hl => ih _ (hl.onLine tid LoggerLine.pushToQueue)
  unfold Logger.timeoutPushToFile
  split
  · exact hAll l h
  · exact h

theorem Counted.recycle (h : l.Counted) : l.recycle.Counted := by
  unfold Logger.recycle
  split
  · exact h
  · exact h

/-- In the current file or in a new one. -/
theorem Counted.archive (h : l.Counted) (writes : Writes) : (l.archive writes true).Counted := by
  obtain ⟨rest, hNext, -⟩ := nextFilled_spec l
  have hFile : l.nextFilled.2.mCurrentLoggerFile = l.mCurrentLoggerFile := by rw [hNext]
  have hLimit : l.nextFilled.2.mFileSizeLimite = l.mFileSizeLimite := by rw [hNext]
  have hFirst := LoggerFile.Counted.archive h writes l.nextFilled.1.content
  unfold Logger.archive
  dsimp only
  rw [hFile]
  split
  · refine Counted.recycle ?_
    rw [Counted, hLimit]
    exact hFirst
  · rw [if_pos rfl]
    refine Counted.recycle ?_
    rw [Counted]
    refine LoggerFile.Counted.archive ?_ writes _
    have hNew := hFirst.createLogFile (Nat.le_refl l.mFileSizeLimite)
    rw [← hLimit] at hNew
    exact hNew

theorem Counted.init (h : l.Counted) (fileSize : Nat) : (l.init fileSize true).Counted := by
  have hGrows : l.mFileSizeLimite ≤
      if fileSize < l.mFileSizeLimite then l.mFileSizeLimite else fileSize := by
    split <;> omega
  exact LoggerFile.Counted.createLogFile h hGrows

end Logger

/-- Every file can be created. -/
def LoggerEvent.Creates : LoggerEvent → Prop
  | .init _ created => created = true
  | .archive _ created => created = true
  | _ => True

theorem counted_step {s : LoggerRun} {e : LoggerEvent} (h : s.logger.Counted) (hCreates : e.Creates) :
    (s.step e).logger.Counted := by
  cases e with
  | init fileSize created =>
    obtain rfl : created = true := hCreates
    exact h.init fileSize
  | setStandbyQueueMax num => exact h
  | findLoggerLine tid =>
    show (s.logger.findLoggerLine tid).Counted
    unfold Logger.findLoggerLine
    split
    · exact h
    · exact h
  | pushToBuffer tid msg =>
    rw [LoggerRun.step]
    split
    · exact h.onLine tid _
    · exact h
  | timeoutNotify => exact h
  | timeoutPushToFile order =>
    rw [LoggerRun.step]
    split
    · exact h.timeoutPushToFile order
    · exact h
  | archive writes created =>
    obtain rfl : created = true := hCreates
    exact h.archive writes

/-- **The limit of the log files** is kept, and the counter is right, whatever `write` returns. -/
theorem log_files_bounded {es : List LoggerEvent} (hCreates : ∀ e ∈ es, e.Creates) :
    Always LoggerRun.step (fun s => s.logger.Bounded) LoggerRun.init es := by
  have hNew : LoggerRun.init.logger.Counted := ⟨fun file hMem => (nomatch hMem), Or.inl rfl⟩
  have hCounted : Always LoggerRun.step (fun s => s.logger.Counted) LoggerRun.init es :=
    always_of_each (fun _ _ => True) (fun _ _ _ _ _ _ => trivial)
      (fun s e _ _ h hCreates => counted_step h hCreates) hNew trivial (each_of_forall hCreates)
  exact hCounted.imp fun s h => h.bounded

/-- A message that is archived a byte at a time. -/
theorem log_files_bounded_bytewise : Always LoggerRun.step (fun s => s.logger.Bounded)
    LoggerRun.init [.init 0 true, .findLoggerLine 1, .pushToBuffer 1 [97, 98], .timeoutNotify,
      .timeoutPushToFile [1], .archive bytewise true] :=
  log_files_bounded (by simp [LoggerEvent.Creates])

end WarringServer.Utility
