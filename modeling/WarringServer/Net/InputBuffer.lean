import Mathlib.Order.MinMax
import WarringServer.Net.IOBuffer
import WarringServer.Lib.Run

/-!
# The sizes of an input buffer

Runs of `IOBuffer::read` with the results of its `readv` and `read` calls. Three sizes go
along: that of `mData`, the part of it in force (`mCurrSize`), and the rest of the maximum
that is offered as `extraBuff`.

* `read_sizes` — a read does to the sizes what its number of bytes says, whatever the
  bytes are;
* `input_sound_iff` — every delivered string is pushed as it is, exactly as long as
  nothing but zeros is delivered to `extraBuff` while `mData` is longer than the part in
  force;
* `input_adapts_iff` — the size in force goes down after a number of short reads and only
  then, exactly as long as no long read makes it smaller and not so many
  successive reads are short at the maximum.

A read of no bytes may change `mCurrSize`, but leaves `mData` as long as it was. At the
maximum nothing is counted.
-/

namespace WarringServer.Net

open Run

-- ---------------------------------------------------------------------------
-- Sizes
-- ---------------------------------------------------------------------------

/-- The sizes of a buffer. -/
structure Sizes where
  data : Nat
  mCurrSize : Nat
  mDecayNum : Nat
deriving Repr, DecidableEq

namespace Sizes

/-- `mCurrSize` behind `n` bytes that fill it. -/
def grown (z : Sizes) (n : Nat) : Nat :=
  min ((n / z.mCurrSize + 1) * ioBufferInitialSize) ioBufferMaxSize

/-- `mCurrSize` and `mDecayNum` behind a read of `n` bytes. -/
def adapt (z : Sizes) (n : Nat) : Nat × Nat :=
  if z.mCurrSize < ioBufferMaxSize then
    if n < z.mCurrSize then
      (if (z.mDecayNum + 1) % 2 ^ 16 ≥ ioBufferDecayLimit then ioBufferInitialSize
        else z.mCurrSize, (z.mDecayNum + 1) % 2 ^ 16)
    else
      (z.grown n, 0)
  else
    (z.mCurrSize, z.mDecayNum)

/-- Behind a read of `n` bytes. `mData` is resized if there are any. -/
def read (z : Sizes) (n : Nat) : Sizes where
  data := if 0 < n then (z.adapt n).1 else z.data
  mCurrSize := (z.adapt n).1
  mDecayNum := (z.adapt n).2

/-- The bounds of the size in force. -/
structure Bounded (z : Sizes) : Prop where
  init_le : ioBufferInitialSize ≤ z.mCurrSize
  le_max : z.mCurrSize ≤ ioBufferMaxSize
  le_data : z.mCurrSize ≤ z.data

variable {z : Sizes}

theorem adapt_short {n : Nat} (hCurr : z.mCurrSize < ioBufferMaxSize) (hShort : n < z.mCurrSize) :
    z.adapt n = (if (z.mDecayNum + 1) % 2 ^ 16 ≥ ioBufferDecayLimit then ioBufferInitialSize
      else z.mCurrSize, (z.mDecayNum + 1) % 2 ^ 16) := by
  rw [adapt, if_pos hCurr, if_pos hShort]

theorem adapt_long {n : Nat} (hCurr : z.mCurrSize < ioBufferMaxSize) (hLong : ¬ n < z.mCurrSize) :
    z.adapt n = (z.grown n, 0) := by
  rw [adapt, if_pos hCurr, if_neg hLong]

theorem adapt_max {n : Nat} (hCurr : ¬ z.mCurrSize < ioBufferMaxSize) :
    z.adapt n = (z.mCurrSize, z.mDecayNum) := by
  rw [adapt, if_neg hCurr]

theorem init_le_grown (n : Nat) : ioBufferInitialSize ≤ z.grown n := by
  refine Nat.le_min.mpr ⟨Nat.le_mul_of_pos_left _ (Nat.succ_pos _), by decide⟩

/-- A read keeps the bounds: of no bytes, it may lower the size in force only. -/
theorem Bounded.read (h : z.Bounded) (n : Nat) : (z.read n).Bounded := by
  have hInit := h.init_le
  have hMax : ioBufferInitialSize ≤ ioBufferMaxSize := by decide
  have hNext : ioBufferInitialSize ≤ (z.adapt n).1 ∧ (z.adapt n).1 ≤ ioBufferMaxSize ∧
      (n = 0 → (z.adapt n).1 ≤ z.mCurrSize) := by
    by_cases hCurr : z.mCurrSize < ioBufferMaxSize
    · by_cases hShort : n < z.mCurrSize
      · rw [adapt_short hCurr hShort]
        dsimp only
        split
        · exact ⟨Nat.le_refl _, hMax, fun _ => hInit⟩
        · exact ⟨hInit, h.le_max, fun _ => Nat.le_refl _⟩
      · rw [adapt_long hCurr hShort]
        refine ⟨init_le_grown n, Nat.min_le_right _ _, ?_⟩
        rintro rfl
        exact absurd (Nat.lt_of_lt_of_le (by decide) hInit) hShort
    · rw [adapt_max hCurr]
      exact ⟨hInit, h.le_max, fun _ => Nat.le_refl _⟩
  refine ⟨hNext.1, hNext.2.1, ?_⟩
  show (z.adapt n).1 ≤ if 0 < n then (z.adapt n).1 else z.data
  split
  · exact Nat.le_refl _
  · exact Nat.le_trans (hNext.2.2 (by omega)) h.le_data

end Sizes

namespace IOBuffer

def sizes (b : IOBuffer) : Sizes := ⟨b.mData.length, b.mCurrSize, b.mDecayNum⟩

variable {b : IOBuffer}

/-- The end of `receive`, with the sizes of `adapt`. -/
theorem receive_short {bytes : Bytes} (hCurr : b.mCurrSize < ioBufferMaxSize)
    (hShort : bytes.length < b.mCurrSize) :
    b.receive bytes =
      { b with
        mData := overwrite b.mData bytes
        mCurrSize := (b.sizes.adapt bytes.length).1
        mDecayNum := (b.sizes.adapt bytes.length).2 } := by
  have hMultiple : bytes.length / b.mCurrSize < 1 := by
    rw [Nat.div_eq_of_lt hShort]
    exact Nat.one_pos
  have hTake : bytes.take b.mCurrSize = bytes := List.take_of_length_le (Nat.le_of_lt hShort)
  have hAdapt := Sizes.adapt_short (z := b.sizes) hCurr hShort
  rw [hAdapt, receive, if_pos hCurr]
  dsimp only
  rw [if_pos hMultiple, hTake]
  rfl

theorem receive_long {bytes : Bytes} (hInit : 0 < b.mCurrSize)
    (hCurr : b.mCurrSize < ioBufferMaxSize) (hLong : ¬ bytes.length < b.mCurrSize) :
    b.receive bytes =
      { b with
        mData := overwrite b.mData (bytes.take b.mCurrSize) ++ bytes.drop b.mCurrSize
        mCurrSize := (b.sizes.adapt bytes.length).1
        mDecayNum := (b.sizes.adapt bytes.length).2 } := by
  have hMultiple : ¬ bytes.length / b.mCurrSize < 1 := by
    rw [Nat.div_lt_iff_lt_mul hInit, Nat.one_mul]
    exact hLong
  have hAdapt := Sizes.adapt_long (z := b.sizes) hCurr hLong
  have hGrown : b.sizes.grown bytes.length =
      if (bytes.length / b.mCurrSize + 1) * ioBufferInitialSize < ioBufferMaxSize then
        (bytes.length / b.mCurrSize + 1) * ioBufferInitialSize else ioBufferMaxSize := by
    show min ((bytes.length / b.mCurrSize + 1) * ioBufferInitialSize) ioBufferMaxSize = _
    split
    · exact Nat.min_eq_left (by omega)
    · exact Nat.min_eq_right (by omega)
  rw [hAdapt, hGrown, receive, if_pos hCurr]
  dsimp only
  rw [if_neg hMultiple]

theorem receive_max {bytes : Bytes} (hCurr : ¬ b.mCurrSize < ioBufferMaxSize) :
    b.receive bytes =
      { b with
        mData := overwrite b.mData bytes
        mCurrSize := (b.sizes.adapt bytes.length).1
        mDecayNum := (b.sizes.adapt bytes.length).2 } := by
  rw [Sizes.adapt_max (z := b.sizes) hCurr, receive, if_neg hCurr]
  rfl

theorem receive_adapts (hInit : 0 < b.mCurrSize) (bytes : Bytes) :
    ∃ data, b.receive bytes =
      { b with
        mData := data
        mCurrSize := (b.sizes.adapt bytes.length).1
        mDecayNum := (b.sizes.adapt bytes.length).2 } := by
  by_cases hCurr : b.mCurrSize < ioBufferMaxSize
  · by_cases hShort : bytes.length < b.mCurrSize
    · exact ⟨_, receive_short hCurr hShort⟩
    · exact ⟨_, receive_long hInit hCurr hShort⟩
  · exact ⟨_, receive_max hCurr⟩

/-- Without bytes nothing is written, and nothing appended. -/
theorem receive_nil_mData (hInit : 0 < b.mCurrSize) : (b.receive []).mData = b.mData := by
  by_cases hCurr : b.mCurrSize < ioBufferMaxSize
  · have hShort : ([] : Bytes).length < b.mCurrSize := hInit
    rw [receive_short hCurr hShort]
    exact List.nil_append _
  · rw [receive_max hCurr]
    exact List.nil_append _

/-- The string a read pushes, if there is any. -/
def pushed (b : IOBuffer) (bytes : Bytes) : Bytes := (b.receive bytes).mData.take bytes.length

theorem read_some {bytes : Bytes} (hInit : 0 < b.mCurrSize) (hSome : bytes ≠ []) :
    (b.read (some bytes)).2 =
      { mData := List.replicate (b.sizes.adapt bytes.length).1 0
        mCurrSize := (b.sizes.adapt bytes.length).1
        mDecayNum := (b.sizes.adapt bytes.length).2
        mDataQueue := b.mDataQueue ++ [b.pushed bytes] } := by
  obtain ⟨data, hReceive⟩ := receive_adapts hInit bytes
  have hLen : bytes.length > 0 := List.length_pos_of_ne_nil hSome
  unfold read pushed
  dsimp only
  rw [if_pos hLen, hReceive]
  rfl

theorem read_nil (hInit : 0 < b.mCurrSize) :
    (b.read (some [])).2 =
      { b with mCurrSize := (b.sizes.adapt 0).1, mDecayNum := (b.sizes.adapt 0).2 } := by
  obtain ⟨data, hReceive⟩ := receive_adapts hInit []
  have hData := receive_nil_mData hInit
  rw [hReceive] at hData
  dsimp only at hData
  unfold read
  dsimp only
  rw [if_neg (by simp), hReceive, hData]
  rfl

/-- **A read does to the sizes what its number of bytes says.** -/
theorem read_sizes (hInit : 0 < b.mCurrSize) (bytes : Bytes) :
    (b.read (some bytes)).2.sizes = b.sizes.read bytes.length := by
  by_cases hSome : bytes = []
  · rw [hSome, read_nil hInit]
    rfl
  · have hLen : 0 < bytes.length := List.length_pos_of_ne_nil hSome
    rw [read_some hInit hSome, sizes, Sizes.read, if_pos hLen, List.length_replicate]

-- ---------------------------------------------------------------------------
-- What is pushed
-- ---------------------------------------------------------------------------

/-- The delivered bytes are where `mData` begins, unless some went to `extraBuff` while `mData`
was longer than the part in force. -/
def Lands (b : IOBuffer) : Option Bytes → Prop
  | none => True
  | some bytes => b.mCurrSize < ioBufferMaxSize → b.mCurrSize < b.mData.length →
      ∀ x ∈ bytes.drop b.mCurrSize, x = 0

theorem shift_eq_iff {α : Type} (a : α) (k : Nat) (ys : List α) :
    (List.replicate (k + 1) a ++ ys).take ys.length = ys ↔ ∀ y ∈ ys, y = a := by
  induction ys with
  | nil => simp
  | cons y ys ih =>
    -- behind the first one the list is shifted as far as before
    have hShift : List.replicate k a ++ a :: ys = List.replicate (k + 1) a ++ ys := by
      rw [List.replicate_succ', List.append_assoc]
      rfl
    rw [List.replicate_succ, List.cons_append, List.length_cons, List.take_succ_cons,
      List.cons_eq_cons, List.forall_mem_cons]
    constructor
    · rintro ⟨rfl, hRest⟩
      rw [hShift] at hRest
      exact ⟨rfl, ih.mp hRest⟩
    · rintro ⟨rfl, hRest⟩
      rw [hShift]
      exact ⟨rfl, ih.mpr hRest⟩

/-- What a read pushes is what was delivered, exactly if it lands in `mData`. -/
theorem pushed_eq_iff (hInit : 0 < b.mCurrSize) (hData : b.mCurrSize ≤ b.mData.length)
    (hZero : b.mData = List.replicate b.mData.length 0) (bytes : Bytes) :
    b.pushed bytes = bytes ↔ b.Lands (some bytes) := by
  unfold pushed Lands
  by_cases hCurr : b.mCurrSize < ioBufferMaxSize
  · by_cases hShort : bytes.length < b.mCurrSize
    · rw [receive_short hCurr hShort]
      dsimp only
      rw [overwrite, List.take_left, List.drop_eq_nil_of_le (Nat.le_of_lt hShort)]
      simp
    · rw [receive_long hInit hCurr hShort]
      have hLen : (bytes.take b.mCurrSize).length = b.mCurrSize := by
        rw [List.length_take]
        omega
      -- the zeros of `mData` that stay behind the delivered bytes
      have hRest : b.mData.drop b.mCurrSize =
          List.replicate (b.mData.length - b.mCurrSize) 0 := by
        rw [hZero, List.drop_replicate, List.length_replicate]
      have hSplit : bytes.length = (bytes.take b.mCurrSize).length +
          (bytes.drop b.mCurrSize).length := by
        rw [← List.length_append, List.take_append_drop]
      dsimp only
      rw [overwrite, hLen, hRest, List.append_assoc, hSplit, List.take_length_add_append]
      have hCut : ∀ ys : Bytes, bytes.take b.mCurrSize ++ ys = bytes ↔
          ys = bytes.drop b.mCurrSize := by
        intro ys
        constructor
        · intro hEq
          exact List.append_cancel_left (hEq.trans (List.take_append_drop _ bytes).symm)
        · rintro rfl
          exact List.take_append_drop _ bytes
      rw [hCut]
      rcases Nat.eq_or_lt_of_le hData with hSame | hLonger
      · rw [← hSame, Nat.sub_self, List.replicate_zero, List.nil_append, List.take_length]
        simp
      · obtain ⟨k, hk⟩ := Nat.exists_eq_add_one_of_ne_zero (Nat.sub_ne_zero_of_lt hLonger)
        rw [hk, shift_eq_iff]
        exact ⟨fun h _ _ => h, fun h => h hCurr hLonger⟩
  · rw [receive_max hCurr]
    dsimp only
    rw [overwrite, List.take_left]
    exact ⟨fun _ h => absurd h hCurr, fun _ => rfl⟩

end IOBuffer

-- ---------------------------------------------------------------------------
-- Runs
-- ---------------------------------------------------------------------------

/-- A successful read: the number of bytes, and `mCurrSize` before and after. -/
structure ReadRecord where
  n : Nat
  size : Nat
  next : Nat
deriving Repr, DecidableEq

/-- An input buffer with what the kernel has delivered, in order, and its successful reads,
the latest first. -/
structure InputRun where
  buffer : IOBuffer
  delivered : List Bytes
  reads : List ReadRecord
deriving Repr, DecidableEq

namespace InputRun

def start : InputRun := ⟨IOBuffer.create, [], []⟩

/-- A call of `read`, with what `readv` or `read` delivers (`none` for -1). -/
def step (s : InputRun) (delivered : Option Bytes) : InputRun :=
  let buffer := (s.buffer.read delivered).2
  match delivered with
  | none => { s with buffer := buffer }
  | some bytes =>
    { buffer := buffer
      delivered := if bytes = [] then s.delivered else s.delivered ++ [bytes]
      reads := ⟨bytes.length, s.buffer.mCurrSize, buffer.mCurrSize⟩ :: s.reads }

/-- The sizes are in their bounds, so `extraBuff` has the rest of the maximum, and the pushed
strings are those that were delivered. -/
structure Sound (s : InputRun) : Prop where
  bounded : s.buffer.sizes.Bounded
  pushed : s.buffer.mDataQueue = s.delivered
  stream : s.buffer.queued = s.delivered.flatten

/-- The condition on a read. -/
def Lands (s : InputRun) (delivered : Option Bytes) : Prop := s.buffer.Lands delivered

/-- What holds of the sizes in any case. Between two reads `mData` has only zeros. -/
structure Sized (s : InputRun) : Prop where
  bounded : s.buffer.sizes.Bounded
  zero : s.buffer.mData = List.replicate s.buffer.mData.length 0

section

variable {s : InputRun}

theorem Sized.init_pos (h : s.Sized) : 0 < s.buffer.mCurrSize :=
  Nat.lt_of_lt_of_le (by decide) h.bounded.init_le

theorem start_sized : start.Sized where
  bounded := ⟨by decide, by decide, by
    show 1024 ≤ (List.replicate 1024 (0 : UInt8)).length
    exact Nat.le_of_eq List.length_replicate.symm⟩
  zero := by
    show List.replicate 1024 (0 : UInt8) = List.replicate (List.replicate 1024 (0 : UInt8)).length 0
    rw [List.length_replicate]

theorem Sized.step (h : s.Sized) (delivered : Option Bytes) : (s.step delivered).Sized := by
  cases delivered with
  | none => exact h
  | some bytes =>
    refine ⟨?_, ?_⟩
    · show (s.buffer.read (some bytes)).2.sizes.Bounded
      rw [IOBuffer.read_sizes h.init_pos]
      exact h.bounded.read _
    · show (s.buffer.read (some bytes)).2.mData = _
      by_cases hSome : bytes = []
      · rw [InputRun.step, hSome, IOBuffer.read_nil h.init_pos]
        exact h.zero
      · rw [InputRun.step, IOBuffer.read_some h.init_pos hSome]
        dsimp only
        rw [List.length_replicate]

theorem sound_step_iff (hSized : s.Sized) (h : s.Sound) (delivered : Option Bytes) :
    (s.step delivered).Sound ↔ s.Lands delivered := by
  have hInit := hSized.init_pos
  cases delivered with
  | none => exact ⟨fun _ => trivial, fun _ => h⟩
  | some bytes =>
    have hBounded : (s.step (some bytes)).buffer.sizes.Bounded := (hSized.step _).bounded
    rw [Lands, ← IOBuffer.pushed_eq_iff hInit hSized.bounded.le_data hSized.zero]
    by_cases hSome : bytes = []
    · subst hSome
      refine ⟨fun _ => rfl, fun _ => ⟨hBounded, ?_, ?_⟩⟩
      · rw [InputRun.step, IOBuffer.read_nil hInit]
        exact h.pushed
      · rw [InputRun.step, IOBuffer.read_nil hInit]
        exact h.stream
    · have hQueue : (s.step (some bytes)).buffer.mDataQueue =
          s.delivered ++ [s.buffer.pushed bytes] := by
        rw [InputRun.step, IOBuffer.read_some hInit hSome, h.pushed]
      have hDelivered : (s.step (some bytes)).delivered = s.delivered ++ [bytes] := if_neg hSome
      constructor
      · intro hNext
        have hLast := hNext.pushed
        rw [hQueue, hDelivered] at hLast
        exact List.singleton_inj.mp (List.append_cancel_left hLast)
      · intro hSame
        rw [hSame] at hQueue
        refine ⟨hBounded, hQueue.trans hDelivered.symm, ?_⟩
        rw [IOBuffer.queued, hQueue, hDelivered]

/--
**Sound input buffers.** For every sequence of results, the sizes stay in their bounds and
every delivered string is pushed as it is, in order, exactly as long as nothing but zeros
goes to `extraBuff` while `mData` is longer than the part of it in force.
-/
theorem input_sound_iff (results : List (Option Bytes)) :
    Always step Sound start results ↔ Each step Lands start results := by
  refine always_iff_each (fun s _ => s.Sized) ?_ ?_ ?_ start_sized
  · intro s delivered _ hSized _ _
    exact hSized.step delivered
  · intro s delivered _ hSized hSound
    exact sound_step_iff hSized hSound delivered
  · exact ⟨start_sized.bounded, rfl, rfl⟩

/-- The sizes behind a number of successful reads. -/
theorem final_sizes (hSized : s.Sized) (chunks : List Bytes) :
    (final step s (chunks.map some)).buffer.sizes =
      (chunks.map List.length).foldl Sizes.read s.buffer.sizes := by
  induction chunks generalizing s with
  | nil => rfl
  | cons bytes chunks ih =>
    rw [List.map_cons, List.map_cons, List.foldl_cons, final_cons, ih (hSized.step _)]
    show (chunks.map List.length).foldl Sizes.read (s.buffer.read (some bytes)).2.sizes = _
    rw [IOBuffer.read_sizes hSized.init_pos]

theorem start_sizes : start.buffer.sizes = ⟨1024, 1024, 0⟩ := by
  show (⟨(List.replicate 1024 (0 : UInt8)).length, 1024, 0⟩ : Sizes) = _
  rw [List.length_replicate]

/-- A full read, four short ones, and one of no bytes. -/
def decayed : List Bytes := [List.replicate 1024 1, [1], [1], [1], [1], []]

/-- The size in force is halved without `mData`, and the next long read is torn. -/
theorem not_input_sound :
    ¬ Always step Sound start ((decayed ++ [List.replicate 1025 1]).map some) := by
  rw [input_sound_iff, List.map_append, each_append]
  rintro ⟨-, hLands, -⟩
  have hSizes : (final step start (decayed.map some)).buffer.sizes = ⟨2048, 1024, 5⟩ := by
    rw [final_sizes start_sized, start_sizes]
    simp only [decayed, List.map_cons, List.map_nil, List.length_replicate]
    decide
  obtain ⟨hData, hCurr, -⟩ := Sizes.mk.inj hSizes
  have hZero := hLands (by rw [hCurr]; decide) (by rw [hCurr, hData]; decide) 1
  rw [hCurr, List.drop_replicate] at hZero
  exact absurd (hZero (List.mem_replicate.mpr ⟨by decide, rfl⟩)) (by decide)

-- ---------------------------------------------------------------------------
-- Adaptation
-- ---------------------------------------------------------------------------

end

end InputRun

/-- Fewer bytes than the size in force. -/
def ReadRecord.Short (r : ReadRecord) : Prop := r.n < r.size

instance (r : ReadRecord) : Decidable r.Short := inferInstanceAs (Decidable (_ < _))

/-- The last `k` reads have all been short. -/
def LastShort (k : Nat) (reads : List ReadRecord) : Prop :=
  k ≤ reads.length ∧ ∀ r ∈ reads.take k, r.Short

/-- The number of short reads since the last one that was not. -/
def streak : List ReadRecord → Nat
  | [] => 0
  | r :: earlier => if r.Short then streak earlier + 1 else 0

theorem lastShort_iff {k : Nat} {reads : List ReadRecord} :
    LastShort k reads ↔ k ≤ streak reads := by
  unfold LastShort
  induction reads generalizing k with
  | nil =>
    rw [List.take_nil, streak]
    exact ⟨And.left, fun h => ⟨h, fun _ hMem => absurd hMem List.not_mem_nil⟩⟩
  | cons r earlier ih =>
    cases k with
    | zero => simp
    | succ k =>
      rw [List.take_succ_cons, List.forall_mem_cons, streak, List.length_cons,
        Nat.succ_le_succ_iff]
      by_cases hShort : r.Short
      · rw [if_pos hShort, Nat.succ_le_succ_iff, ← ih]
        exact ⟨fun h => ⟨h.1, h.2.2⟩, fun h => ⟨h.1, hShort, h.2⟩⟩
      · rw [if_neg hShort]
        exact ⟨fun h => absurd h.2.1 hShort, fun h => absurd h (Nat.not_succ_le_zero k)⟩

namespace InputRun

/-- The rule, for the last read. -/
structure Adapts (s : InputRun) : Prop where
  /-- The size goes down only behind enough short reads. -/
  shrinks : ∀ r earlier, s.reads = r :: earlier → r.next < r.size →
    LastShort ioBufferDecayLimit s.reads
  /-- Behind enough short reads it is the initial one. -/
  decays : LastShort ioBufferDecayLimit s.reads → s.buffer.mCurrSize = ioBufferInitialSize

/-- The condition on a read: a long one does not make the size smaller, and at the maximum
there are never enough short ones. -/
def Paced (s : InputRun) : Option Bytes → Prop
  | none => True
  | some bytes =>
    (s.buffer.mCurrSize < ioBufferMaxSize → s.buffer.mCurrSize ≤ bytes.length →
      s.buffer.mCurrSize ≤ (bytes.length / s.buffer.mCurrSize + 1) * ioBufferInitialSize) ∧
    (s.buffer.mCurrSize = ioBufferMaxSize → bytes.length < s.buffer.mCurrSize →
      ¬ LastShort (ioBufferDecayLimit - 1) s.reads)

/-- Below the maximum, the counter goes along with the short reads as far as its type. -/
def Counted (s : InputRun) : Prop :=
  s.buffer.mCurrSize < ioBufferMaxSize → s.buffer.mDecayNum = streak s.reads % 2 ^ 16

section

variable {s : InputRun}

/-- The size, the counter and the record behind a successful read. -/
theorem step_some (hSized : s.Sized) (bytes : Bytes) :
    (s.step (some bytes)).buffer.mCurrSize = (s.buffer.sizes.adapt bytes.length).1 ∧
      (s.step (some bytes)).buffer.mDecayNum = (s.buffer.sizes.adapt bytes.length).2 ∧
      (s.step (some bytes)).reads =
        ⟨bytes.length, s.buffer.mCurrSize, (s.buffer.sizes.adapt bytes.length).1⟩ :: s.reads := by
  have hSizes := IOBuffer.read_sizes hSized.init_pos bytes
  obtain ⟨-, hCurr, hDecay⟩ := Sizes.mk.inj hSizes
  refine ⟨hCurr, hDecay, ?_⟩
  show (⟨_, _, (s.buffer.read (some bytes)).2.mCurrSize⟩ : ReadRecord) :: s.reads = _
  rw [hCurr]

theorem streak_step (s : InputRun) (bytes : Bytes) :
    streak (s.step (some bytes)).reads =
      if bytes.length < s.buffer.mCurrSize then streak s.reads + 1 else 0 := rfl

theorem Counted.step (h : s.Counted) (hSized : s.Sized) (delivered : Option Bytes) :
    (s.step delivered).Counted := by
  cases delivered with
  | none => exact h
  | some bytes =>
    obtain ⟨hCurr, hDecay, -⟩ := step_some hSized bytes
    intro hNext
    rw [hCurr] at hNext
    rw [hDecay, streak_step]
    by_cases hBelow : s.buffer.mCurrSize < ioBufferMaxSize
    · have hCount := h hBelow
      by_cases hShort : bytes.length < s.buffer.mCurrSize
      · rw [Sizes.adapt_short (z := s.buffer.sizes) hBelow hShort, if_pos hShort]
        show (s.buffer.mDecayNum + 1) % 2 ^ 16 = _
        rw [hCount, Nat.mod_add_mod]
      · rw [Sizes.adapt_long (z := s.buffer.sizes) hBelow hShort, if_neg hShort, Nat.zero_mod]
    · -- the maximum is for ever
      rw [Sizes.adapt_max (z := s.buffer.sizes) hBelow] at hNext
      exact absurd hNext hBelow

/-- The rule behind a successful read, in terms of the streak. -/
theorem adapts_step_some (hSized : s.Sized) (bytes : Bytes) :
    (s.step (some bytes)).Adapts ↔
      ((s.buffer.sizes.adapt bytes.length).1 < s.buffer.mCurrSize →
        5 ≤ streak (s.step (some bytes)).reads) ∧
      (5 ≤ streak (s.step (some bytes)).reads →
        (s.buffer.sizes.adapt bytes.length).1 = ioBufferInitialSize) := by
  obtain ⟨hCurr, -, hReads⟩ := step_some hSized bytes
  constructor
  · intro hNext
    rw [← hCurr]
    refine ⟨fun hLess => ?_, fun hLong => hNext.decays (lastShort_iff.mpr hLong)⟩
    rw [hCurr] at hLess
    exact lastShort_iff.mp (hNext.shrinks _ _ hReads hLess)
  · rintro ⟨hShrinks, hDecays⟩
    refine ⟨?_, fun hLong => hCurr.trans (hDecays (lastShort_iff.mp hLong))⟩
    intro r earlier hSplit hLess
    rw [hReads] at hSplit
    obtain ⟨rfl, -⟩ := List.cons.inj hSplit
    exact lastShort_iff.mpr (hShrinks hLess)

/-- A short read below the maximum keeps to the rule. -/
theorem adapts_short (hSized : s.Sized) (hCounted : s.Counted) (h : s.Adapts) {bytes : Bytes}
    (hBelow : s.buffer.mCurrSize < ioBufferMaxSize) (hShort : bytes.length < s.buffer.mCurrSize) :
    (s.step (some bytes)).Adapts := by
  rw [adapts_step_some hSized, streak_step, if_pos hShort,
    Sizes.adapt_short (z := s.buffer.sizes) hBelow hShort]
  have hCount : s.buffer.sizes.mDecayNum = streak s.reads % 2 ^ 16 := hCounted hBelow
  dsimp only
  rw [hCount, Nat.mod_add_mod]
  split
  · rename_i hFull
    have hLimit : 5 ≤ (streak s.reads + 1) % 2 ^ 16 := hFull
    have hMod := Nat.mod_le (streak s.reads + 1) (2 ^ 16)
    exact ⟨fun _ => by omega, fun _ => rfl⟩
  · rename_i hNotFull
    have hLimit : ¬ 5 ≤ (streak s.reads + 1) % 2 ^ 16 := hNotFull
    refine ⟨fun hLess => absurd hLess (Nat.lt_irrefl _), fun hLong => ?_⟩
    -- the counter has wrapped: the size has been the initial one for long
    have hBefore : 5 ≤ streak s.reads := by omega
    exact h.decays (lastShort_iff.mpr hBefore)

theorem grown_lt_iff (hBelow : s.buffer.mCurrSize < ioBufferMaxSize) (n : Nat) :
    s.buffer.sizes.grown n < s.buffer.mCurrSize ↔
      (n / s.buffer.mCurrSize + 1) * ioBufferInitialSize < s.buffer.mCurrSize := by
  show min _ _ < _ ↔ _
  rw [min_lt_iff]
  exact ⟨fun hLess => hLess.resolve_right (Nat.lt_asymm hBelow), Or.inl⟩

/-- A long one keeps to it unless the size goes down. -/
theorem adapts_long_iff (hSized : s.Sized) {bytes : Bytes}
    (hBelow : s.buffer.mCurrSize < ioBufferMaxSize) (hLong : ¬ bytes.length < s.buffer.mCurrSize) :
    (s.step (some bytes)).Adapts ↔
      s.buffer.mCurrSize ≤ (bytes.length / s.buffer.mCurrSize + 1) * ioBufferInitialSize := by
  rw [adapts_step_some hSized, streak_step, if_neg hLong,
    Sizes.adapt_long (z := s.buffer.sizes) hBelow hLong]
  dsimp only
  rw [grown_lt_iff hBelow]
  constructor
  · intro hBoth
    exact Nat.le_of_not_lt fun hLess => absurd (hBoth.1 hLess) (by decide)
  · intro hGrown
    exact ⟨fun hLess => absurd hLess (Nat.not_lt.mpr hGrown), fun hFull => absurd hFull (by decide)⟩

/-- At the maximum the size stays, so that enough short reads are too many. -/
theorem adapts_max_iff (hSized : s.Sized) (bytes : Bytes)
    (hMax : ¬ s.buffer.mCurrSize < ioBufferMaxSize) :
    (s.step (some bytes)).Adapts ↔
      (bytes.length < s.buffer.mCurrSize → ¬ LastShort (ioBufferDecayLimit - 1) s.reads) := by
  have hFour : LastShort (ioBufferDecayLimit - 1) s.reads ↔ 4 ≤ streak s.reads := lastShort_iff
  have hNotInit : s.buffer.sizes.mCurrSize ≠ ioBufferInitialSize := by
    intro hInit
    exact hMax (show s.buffer.sizes.mCurrSize < _ by rw [hInit]; decide)
  rw [adapts_step_some hSized, streak_step, hFour, Sizes.adapt_max (z := s.buffer.sizes) hMax]
  dsimp only
  constructor
  · intro hBoth hShort hFull
    rw [if_pos hShort] at hBoth
    exact hNotInit (hBoth.2 (by omega))
  · intro hFew
    refine ⟨fun hLess => absurd hLess (Nat.lt_irrefl _), fun hFull => ?_⟩
    split at hFull
    · rename_i hShort
      exact absurd (show 4 ≤ streak s.reads by omega) (hFew hShort)
    · omega

/-- **One read** keeps to the rule exactly if it meets the condition. -/
theorem adapts_step_iff (hSized : s.Sized) (hCounted : s.Counted) (h : s.Adapts)
    (delivered : Option Bytes) : (s.step delivered).Adapts ↔ s.Paced delivered := by
  cases delivered with
  | none => exact ⟨fun _ => trivial, fun _ => h⟩
  | some bytes =>
    rw [Paced]
    by_cases hBelow : s.buffer.mCurrSize < ioBufferMaxSize
    · have hNotMax : s.buffer.mCurrSize ≠ ioBufferMaxSize := Nat.ne_of_lt hBelow
      by_cases hShort : bytes.length < s.buffer.mCurrSize
      · exact iff_of_true (adapts_short hSized hCounted h hBelow hShort)
          ⟨fun _ hLong => absurd hShort (Nat.not_lt.mpr hLong), fun hMax => absurd hMax hNotMax⟩
      · rw [adapts_long_iff hSized hBelow hShort]
        exact ⟨fun hGrown => ⟨fun _ _ => hGrown, fun hMax => absurd hMax hNotMax⟩,
          fun hPaced => hPaced.1 hBelow (Nat.le_of_not_lt hShort)⟩
    · have hMax : s.buffer.mCurrSize = ioBufferMaxSize :=
        Nat.le_antisymm hSized.bounded.le_max (Nat.le_of_not_lt hBelow)
      rw [adapts_max_iff hSized bytes hBelow]
      exact ⟨fun hFew => ⟨fun hLess => absurd hLess hBelow, fun _ => hFew⟩,
        fun hPaced => hPaced.2 hMax⟩

/--
**Adaptation.** For every history of reads, `mCurrSize` goes down in a read only if it is the
last of `mContinuousDecayLimit` short ones, and is the initial size behind so many, exactly
as long as no long read makes it smaller and, at the maximum, not so many successive reads
are short.
-/
theorem input_adapts_iff (results : List (Option Bytes)) :
    Always step Adapts start results ↔ Each step Paced start results := by
  refine always_iff_each (fun s _ => s.Sized ∧ s.Counted) ?_ ?_ ?_ ⟨start_sized, fun _ => rfl⟩
  · intro s delivered _ hJ _ _
    exact ⟨hJ.1.step delivered, hJ.2.step hJ.1 delivered⟩
  · intro s delivered _ hJ hAdapts
    exact adapts_step_iff hJ.1 hJ.2 hAdapts delivered
  · exact ⟨fun _ _ hNil => (nomatch hNil), fun h => absurd h.1 (by decide)⟩

/-- A read of 3072 bytes, which is all there is room for, makes the buffer smaller. -/
theorem not_input_adapts :
    ¬ Always step Adapts start ([List.replicate 2048 1, List.replicate 3072 1].map some) := by
  rw [input_adapts_iff]
  rintro ⟨-, hPaced, -⟩
  obtain ⟨hCurr, -, -⟩ := step_some start_sized (List.replicate 2048 1)
  rw [start_sizes, List.length_replicate] at hCurr
  have hSize : (start.step (some (List.replicate 2048 1))).buffer.mCurrSize = 3072 :=
    hCurr.trans rfl
  rw [Paced, hSize, List.length_replicate] at hPaced
  exact absurd (hPaced.1 (by decide) (Nat.le_refl _)) (by decide)

end

end InputRun

end WarringServer.Net
