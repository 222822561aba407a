import Mathlib.Algebra.Group.Nat.Defs
import Mathlib.Data.List.Basic
import Mathlib.Tactic.Common

/-!
# IOBuffer — the byte queue of one socket direction

Model of `Base/net/IOBuffer.h` and the constants of `NetParam.h`. An `IOBuffer`
owns a queue of byte strings (`mDataQueue`) and, for the reading side, a buffer
`mData` whose size `mCurrSize` adapts to the amount of data the kernel delivers.

The kernel appears through what a system call returns: `read` is given the bytes
that `readv`/`read` delivered (`none` for -1), `write` is given the state of the
socket as a `SocketWrite`.
-/

namespace WarringServer

/-- A `std::string` used as a byte container. -/
abbrev Bytes := List UInt8

namespace Net

def ioBufferInitialSize : Nat := 1024
def ioBufferMaxSize : Nat := 1024 * 64
def ioBufferDecayLimit : Nat := 5

/-- `IOBuffer`. `mInitSize`, `mMaxSize` and `mContinuousDecayLimit` are `const`
members and stand as the constants above. -/
structure IOBuffer where
  mData : Bytes
  mCurrSize : Nat
  mDecayNum : Nat
  mDataQueue : List Bytes
deriving Repr, DecidableEq

/-- State of the socket at a `::write`: it takes as much as it has room for, or
fails with `EWOULDBLOCK`. Every result `0 ≤ n ≤ len` is that of some `room`. -/
inductive SocketWrite where
  | room (n : Nat)
  | wouldBlock
deriving Repr, DecidableEq

/-- The bytes of `buf` the kernel accepts. -/
def SocketWrite.accepted : SocketWrite → Bytes → Bytes
  | .room n, buf => buf.take n
  | .wouldBlock, _ => []

namespace IOBuffer

/-- The constructor. -/
def create : IOBuffer where
  mData := List.replicate ioBufferInitialSize 0
  mCurrSize := ioBufferInitialSize
  mDecayNum := 0
  mDataQueue := []

def put (b : IOBuffer) (str : Bytes) : IOBuffer :=
  { b with mDataQueue := b.mDataQueue ++ [str] }

def get (b : IOBuffer) : Option Bytes × IOBuffer :=
  match b.mDataQueue with
  | [] => (none, b)
  | str :: rest => (some str, { b with mDataQueue := rest })

def empty (b : IOBuffer) : Bool := b.mDataQueue.isEmpty

/-- Bytes written over the front of a buffer that is at least as long. -/
def overwrite (dst src : Bytes) : Bytes := src ++ dst.drop src.length

/-- The middle of `IOBuffer::read`: where the delivered bytes land, and how the
number of bytes adapts `mCurrSize` and `mDecayNum`. -/
def receive (b : IOBuffer) (bytes : Bytes) : IOBuffer :=
  if b.mCurrSize < ioBufferMaxSize then
    -- `readv` fills `mData` up to `mCurrSize`, then `extraBuff`
    let mData := overwrite b.mData (bytes.take b.mCurrSize)
    let extraBuff := bytes.drop b.mCurrSize
    let multiple := bytes.length / b.mCurrSize
    if multiple < 1 then
      -- `unsigned short`
      let mDecayNum := (b.mDecayNum + 1) % 2 ^ 16
      { b with
        mData := mData
        mDecayNum := mDecayNum
        mCurrSize := if mDecayNum ≥ ioBufferDecayLimit then ioBufferInitialSize
          else b.mCurrSize }
    else
      { b with
        mData := mData ++ extraBuff
        mDecayNum := 0
        mCurrSize := if (multiple + 1) * ioBufferInitialSize < ioBufferMaxSize
          then (multiple + 1) * ioBufferInitialSize else ioBufferMaxSize }
  else
    { b with mData := overwrite b.mData bytes }

/-- `IOBuffer::read`. The result is what `readv`/`read` returned; `mData` is
resized only when bytes arrived. -/
def read (b : IOBuffer) (delivered : Option Bytes) : Int × IOBuffer :=
  match delivered with
  | none => (-1, b)
  | some bytes =>
    let b := b.receive bytes
    if bytes.length > 0 then
      (bytes.length,
        { b.put (b.mData.take bytes.length) with mData := List.replicate b.mCurrSize 0 })
    else
      (bytes.length, b)

/-- `IOBuffer::write`: the part the kernel did not take goes back to the queue. -/
def write (b : IOBuffer) (k : SocketWrite) (buf : Bytes) : Int × IOBuffer :=
  match k with
  | .wouldBlock => (-1, b)
  | .room _ =>
    let n := (k.accepted buf).length
    let remaining := buf.drop n
    (n, if remaining.length > 0 then b.put remaining else b)

-- ---------------------------------------------------------------------------
-- The queue as a byte string
-- ---------------------------------------------------------------------------

/-- All queued bytes, front to back. -/
def queued (b : IOBuffer) : Bytes := b.mDataQueue.flatten

@[simp] theorem put_mDataQueue (b : IOBuffer) (str : Bytes) :
    (b.put str).mDataQueue = b.mDataQueue ++ [str] := rfl

@[simp] theorem put_queued (b : IOBuffer) (str : Bytes) :
    (b.put str).queued = b.queued ++ str := by
  simp [queued]

theorem get_nil {b : IOBuffer} (h : b.mDataQueue = []) : b.get = (none, b) := by
  simp [get, h]

theorem get_cons {b : IOBuffer} {str : Bytes} {rest : List Bytes}
    (h : b.mDataQueue = str :: rest) :
    b.get = (some str, { b with mDataQueue := rest }) := by
  simp [get, h]

/-- What a write leaves queued: everything the kernel did not take, unless the
write failed. -/
theorem write_queued (b : IOBuffer) (k : SocketWrite) (buf : Bytes) :
    (b.write k buf).2.queued =
      match k with
      | .room n => b.queued ++ buf.drop n
      | .wouldBlock => b.queued := by
  cases k with
  | wouldBlock => rfl
  | room n =>
    have hDrop : buf.drop (min n buf.length) = buf.drop n := by
      rcases Nat.le_total n buf.length with hLe | hLe
      · rw [Nat.min_eq_left hLe]
      · rw [Nat.min_eq_right hLe, List.drop_eq_nil_of_le hLe, List.drop_length]
    simp only [write, SocketWrite.accepted, List.length_take, hDrop]
    split
    · exact put_queued ..
    · rename_i hNone
      -- nothing is put back because nothing is left
      have hNil : buf.drop n = [] := List.eq_nil_of_length_eq_zero (by omega)
      rw [hNil, List.append_nil]

theorem receive_mDataQueue (b : IOBuffer) (bytes : Bytes) :
    (b.receive bytes).mDataQueue = b.mDataQueue := by
  unfold receive
  split
  · dsimp only
    split <;> rfl
  · rfl

/-- While `mData` has the size in force, the delivered bytes end up at its
front, wherever `readv` put them. -/
theorem receive_front {b : IOBuffer} (hSize : b.mData.length = b.mCurrSize)
    (hInit : 0 < b.mCurrSize) (bytes : Bytes) :
    (b.receive bytes).mData.take bytes.length = bytes := by
  unfold receive
  split
  · dsimp only
    split
    · -- fewer bytes than `mCurrSize`: `extraBuff` stays empty
      rename_i hSmall
      have hLe : bytes.length ≤ b.mCurrSize := by
        by_contra hGt
        have := Nat.div_pos (show b.mCurrSize ≤ bytes.length by omega) hInit
        omega
      show (overwrite b.mData (bytes.take b.mCurrSize)).take bytes.length = bytes
      rw [List.take_of_length_le hLe, overwrite, List.take_left]
    · -- at least `mCurrSize` bytes: the rest is appended from `extraBuff`
      rename_i hBig
      have hGe : b.mCurrSize ≤ bytes.length := by
        by_contra hLt
        exact hBig (by rw [Nat.div_eq_of_lt (by omega)]; omega)
      have hDrop : b.mData.drop (bytes.take b.mCurrSize).length = [] := by
        apply List.drop_eq_nil_of_le
        rw [List.length_take]
        omega
      show (overwrite b.mData (bytes.take b.mCurrSize) ++
        bytes.drop b.mCurrSize).take bytes.length = bytes
      rw [overwrite, hDrop, List.append_nil, List.take_append_drop, List.take_length]
  · show (overwrite b.mData bytes).take bytes.length = bytes
    rw [overwrite, List.take_left]

/-- **A read delivers a chunk.** While `mData` has the size in force, the bytes
the kernel delivered are what the read appends to the queue. -/
theorem read_delivers {b : IOBuffer} (hSize : b.mData.length = b.mCurrSize)
    (hInit : 0 < b.mCurrSize) {bytes : Bytes} (hPos : bytes ≠ []) :
    (b.read (some bytes)).1 = bytes.length ∧
      (b.read (some bytes)).2.mDataQueue = b.mDataQueue ++ [bytes] := by
  have hLen : bytes.length > 0 := List.length_pos_of_ne_nil hPos
  simp only [read, if_pos hLen, put_mDataQueue, receive_mDataQueue,
    receive_front hSize hInit, true_and]

end IOBuffer

end Net

end WarringServer
