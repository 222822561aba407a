import Mathlib.Data.List.Basic
import Mathlib.Tactic.Common
import WarringServer.Net.IOBuffer

/-!
# Log buffers and log files

`LoggerBuffer` collects the bytes of one thread; `LoggerFile` appends the content of a
buffer to the current file, by as many calls of `write` as it takes. The results of the
calls are an input (`Writes`): any number of bytes up to the ones asked for, or an
error.

* `archive_complete` — when every call takes all it is given, the content is appended
  once, and in order;
* `archive_refused` — a buffer that does not fit within the limit leaves the file alone.
-/

namespace WarringServer.Utility

/-- Threads are numbered; the logger only compares them. -/
abbrev ThreadId := Nat

/-- A byte of a message, marked with the thread that logged it. The logger moves bytes
and never looks at them, so it cannot tell the marks. -/
structure LogByte where
  owner : ThreadId
  byte : UInt8
  deriving DecidableEq, Repr

/-- The capacity of `LoggerBufferNType`, `LoggerBuffer<40960>`. -/
def bufferCapacity : Nat := 40960

/-- A buffer: the bytes from `mBuffer` up to `mCurrent`. `push` keeps a byte free. -/
structure LoggerBuffer where
  content : List LogByte
  fits : content.length < bufferCapacity

namespace LoggerBuffer

/-- A new buffer, or one that has been `reset`. -/
def new : LoggerBuffer := ⟨[], by decide⟩

def getSize (b : LoggerBuffer) : Nat := b.content.length

def getAvail (b : LoggerBuffer) : Nat := bufferCapacity - b.content.length

/-- `push`; `none` is `false`, with the buffer as it was. -/
def push (b : LoggerBuffer) (msg : List LogByte) : Option LoggerBuffer :=
  if h : b.getAvail > msg.length then
    some ⟨b.content ++ msg, by
      rw [List.length_append]
      have hAvail : bufferCapacity - b.content.length > msg.length := h
      omega⟩
  else none

theorem push_content {b b' : LoggerBuffer} {msg : List LogByte} (h : b.push msg = some b') :
    b'.content = b.content ++ msg := by
  unfold push at h
  split at h
  · cases h
    rfl
  · cases h

/-- An empty buffer takes every message that is shorter than the capacity. -/
theorem push_empty {b : LoggerBuffer} {msg : List LogByte} (hEmpty : b.content = [])
    (hMsg : msg.length < bufferCapacity) : ∃ b', b.push msg = some b' ∧ b'.content = msg := by
  have hAvail : b.getAvail > msg.length := by
    rw [getAvail, hEmpty]
    exact hMsg
  refine ⟨⟨b.content ++ msg, _⟩, dif_pos hAvail, ?_⟩
  show b.content ++ msg = msg
  rw [hEmpty, List.nil_append]

end LoggerBuffer

/-- The results of `write`, by the number of the call and the bytes it is asked to
write: the bytes it has written, or an error. -/
abbrev Writes := Nat → (requested : Nat) → Option (Fin (requested + 1))

/-- Every call writes all it is asked to. -/
def Writes.Complete (writes : Writes) : Prop :=
  ∀ call requested, writes call requested = some (Fin.last requested)

/-- `LoggerFile`, with the files it has created, oldest first. `mFd` is the index of one
of them. -/
structure LoggerFile where
  files : List (List LogByte)
  mFd : Option Nat
  mFileSizeLimite : Nat
  mCurrDataSize : Nat
  mRunning : Bool
  deriving DecidableEq, Repr

namespace LoggerFile

def init : LoggerFile :=
  { files := [], mFd := none, mFileSizeLimite := 0, mCurrDataSize := 0, mRunning := true }

/-- `createLogFile`; every file has a name of its own. `created` is whether `open`
succeeds. -/
def createLogFile (f : LoggerFile) (created : Bool) : LoggerFile :=
  if created then
    { f with files := f.files ++ [[]], mFd := some f.files.length, mCurrDataSize := 0 }
  else { f with mFd := none }

def setFileSizeLimite (f : LoggerFile) (sz : Nat) : LoggerFile := { f with mFileSizeLimite := sz }

/-- The loop of `archive`. Every call of `write` starts from `buff`; there is none to
write to before the first file. -/
def writeLoop (writes : Writes) (buff : List LogByte) (len call curr : Nat) (f : LoggerFile) :
    LoggerFile :=
  let remain := len - curr
  match f.mFd, writes call remain with
  | some fd, some sz =>
      if sz.val = 0 then f
      else writeLoop writes buff len (call + 1) (curr + sz.val)
        { f with
          files := f.files.modify fd (· ++ buff.take sz.val)
          mCurrDataSize := f.mCurrDataSize + sz.val }
  | _, _ => f
termination_by len - curr
decreasing_by
  have hLt := sz.isLt
  omega

/-- `archive`: the file afterwards, and the result. -/
def archive (f : LoggerFile) (writes : Writes) (buff : List LogByte) : LoggerFile × Bool :=
  let len := buff.length
  if f.mCurrDataSize + len > f.mFileSizeLimite then (f, false)
  else if f.mRunning then (writeLoop writes buff len 0 0 f, true)
  else (f, true)

section

variable {f : LoggerFile} {writes : Writes} {buff : List LogByte}

/-- The calls stop once there is nothing left to write. -/
theorem writeLoop_done (len call : Nat) : writeLoop writes buff len call len f = f := by
  rw [writeLoop]
  cases hFd : f.mFd with
  | none => rfl
  | some fd =>
    cases hSz : writes call (len - len) with
    | none => rfl
    | some sz =>
      have hZero : sz.val = 0 := by
        have hLt := sz.isLt
        omega
      simp [hZero]

variable (buff) in
/-- A complete write appends the whole buffer. -/
theorem writeLoop_complete {fd : Nat} (hFd : f.mFd = some fd) (hWrites : writes.Complete) :
    (writeLoop writes buff buff.length 0 0 f).files = f.files.modify fd (· ++ buff) ∧
      (writeLoop writes buff buff.length 0 0 f).mFd = f.mFd ∧
      (writeLoop writes buff buff.length 0 0 f).mFileSizeLimite = f.mFileSizeLimite ∧
      (writeLoop writes buff buff.length 0 0 f).mRunning = f.mRunning := by
  rw [writeLoop]
  simp only [hFd, hWrites 0, Fin.val_last, Nat.sub_zero, Nat.zero_add]
  by_cases hEmpty : buff.length = 0
  · -- nothing to write: the first call ends the loop
    rw [if_pos hEmpty, List.length_eq_zero_iff.mp hEmpty]
    simp only [List.append_nil]
    exact ⟨(List.modify_id fd f.files).symm, hFd, trivial, trivial⟩
  · rw [if_neg hEmpty, writeLoop_done, List.take_length]
    exact ⟨rfl, rfl, rfl, rfl⟩

variable (writes) in
/-- A buffer that does not fit is refused. -/
theorem archive_refused (h : f.mCurrDataSize + buff.length > f.mFileSizeLimite) :
    f.archive writes buff = (f, false) := if_pos h

theorem archive_accepted (h : f.mCurrDataSize + buff.length ≤ f.mFileSizeLimite)
    (hRunning : f.mRunning = true) :
    f.archive writes buff = (writeLoop writes buff buff.length 0 0 f, true) := by
  rw [archive, if_neg (Nat.not_lt.mpr h), if_pos hRunning]

/-- Appending to the last file of a list of files. -/
theorem modify_last (older : List (List LogByte)) (current : List LogByte) :
    (older ++ [current]).modify older.length (· ++ buff) = older ++ [current ++ buff] := by
  induction older with
  | nil => rfl
  | cons file older ih =>
    rw [List.cons_append, List.length_cons, List.modify_succ_cons, ih]
    rfl

/-- The logger writes to the file it has created last, if there is one yet. Before, it
refuses everything. -/
def Current (f : LoggerFile) : Prop :=
  (f.files = [] ∧ f.mFd = none ∧ f.mFileSizeLimite = 0) ∨
  ∃ older current, f.files = older ++ [current] ∧ f.mFd = some older.length

theorem current_init : Current init := Or.inl ⟨rfl, rfl, rfl⟩

theorem current_createLogFile (limit : Nat) :
    Current ((f.createLogFile true).setFileSizeLimite limit) :=
  Or.inr ⟨f.files, [], rfl, rfl⟩

/-- **Archiving.** Complete writes append the content of the buffer to what the files
hold. -/
theorem archive_complete (hCurrent : Current f) (hRunning : f.mRunning = true)
    (hWrites : writes.Complete) (h : f.mCurrDataSize + buff.length ≤ f.mFileSizeLimite) :
    (f.archive writes buff).2 = true ∧
      (f.archive writes buff).1.files.flatten = f.files.flatten ++ buff ∧
      Current (f.archive writes buff).1 ∧ (f.archive writes buff).1.mRunning = true := by
  rw [archive_accepted h hRunning]
  refine ⟨rfl, ?_⟩
  rcases hCurrent with ⟨hFiles, hFd, hLimit⟩ | ⟨older, current, hFiles, hFd⟩
  · -- no file yet: the limit lets nothing but an empty buffer pass
    have hEmpty : buff = [] := List.length_eq_zero_iff.mp (by omega)
    subst hEmpty
    have hLoop : writeLoop writes [] ([] : List LogByte).length 0 0 f = f :=
      writeLoop_done 0 0
    rw [hLoop, List.append_nil]
    exact ⟨rfl, Or.inl ⟨hFiles, hFd, hLimit⟩, hRunning⟩
  · obtain ⟨hFiles', hFd', -, hRunning'⟩ := writeLoop_complete buff hFd hWrites
    rw [hFiles, modify_last] at hFiles'
    refine ⟨?_, Or.inr ⟨older, current ++ buff, hFiles', hFd'.trans hFd⟩,
      hRunning'.trans hRunning⟩
    rw [hFiles', hFiles]
    simp

end

end LoggerFile

end WarringServer.Utility
