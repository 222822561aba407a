import WarringServer.Message.Decode

/-!
# How `deserialize` fails

A `deserialize` that does not complete either reads past its data or asks the table of lengths
for an entry it does not have, or it is stopped before it could: a `std::string` that is to be
longer than what is left of the data reads past it only if it gets its storage. How much storage
there is, is not for the data to say: `obtains len` tells whether a string of `len` bytes gets
it.

Like the lemmas about calls that complete, each `pop` function has one about calls that are
`Spared`: they complete, or a string of theirs is refused.

* `spared_popMembers` — members are spared exactly if the table has their entries and the data
  their bytes, up to a string that is refused (`Readable`);
* `spared_deserialize` — so is a `deserialize`, for the table that it completes.
-/

namespace WarringServer.Message

open LittleEndian

variable {obtains : Nat → Bool} {α β : Type}

/-- The fault reads past the data, or indexes the table of lengths out of range. -/
def DecodeFault.Unsafe (obtains : Nat → Bool) : DecodeFault → Prop
  | .readPastEnd | .lengthOutOfRange => True
  | .stringPastEnd len => obtains len = true

/-- The call completes, or it is stopped before it does any harm. -/
def Spared (obtains : Nat → Bool) (x : Except DecodeFault α) : Prop :=
  ∀ fault, x = .error fault → ¬ fault.Unsafe obtains

theorem spared_ok {a : α} : Spared obtains (.ok a) := fun _ hError => nomatch hError

theorem spared_error {fault : DecodeFault} :
    Spared obtains (.error fault : Except DecodeFault α) ↔ ¬ fault.Unsafe obtains := by
  refine ⟨fun h => h fault rfl, fun h fault' hError => ?_⟩
  rwa [← Except.error.inj hError]

/-- A call and what follows it, where the call can only return `a`. -/
theorem spared_bind {x : Except DecodeFault α} {f : α → Except DecodeFault β} {P : Prop} {a : α}
    (hOk : ∀ r, x = .ok r ↔ P ∧ r = a) :
    Spared obtains (x >>= f) ↔ Spared obtains x ∧ (P → Spared obtains (f a)) := by
  cases x with
  | error fault =>
    have hNot : ¬ P := fun hP => nomatch (hOk a).mpr ⟨hP, rfl⟩
    exact ⟨fun h => ⟨spared_error.mpr (h fault rfl), fun hP => absurd hP hNot⟩,
      fun h => spared_error.mpr (spared_error.mp h.1)⟩
  | ok r =>
    obtain ⟨hP, rfl⟩ := (hOk r).mp rfl
    exact ⟨fun h => ⟨spared_ok, fun _ => h⟩, fun h => h.2 hP⟩

/-- A call that is spared only if it completes. -/
theorem spared_bind_of_iff {x : Except DecodeFault α} {f : α → Except DecodeFault β} {P : Prop}
    {a : α} (hOk : ∀ r, x = .ok r ↔ P ∧ r = a) (hSpared : Spared obtains x ↔ P) :
    Spared obtains (x >>= f) ↔ P ∧ Spared obtains (f a) := by
  rw [spared_bind hOk, hSpared]
  exact ⟨fun h => ⟨h.1, h.2 h.1⟩, fun h => ⟨h.1, fun _ => h.2⟩⟩

-- ---------------------------------------------------------------------------
-- The `pop` functions
-- ---------------------------------------------------------------------------

section

variable {data : Bytes}

theorem spared_readBytes {cursor n : Nat} :
    Spared obtains (readBytes data cursor n) ↔ cursor + n ≤ data.length := by
  unfold readBytes
  split
  · rename_i hIn
    exact iff_of_true spared_ok hIn
  · rename_i hOut
    exact iff_of_false (fun h => spared_error.mp h trivial) hOut

theorem spared_readString {cursor len : Nat} :
    Spared obtains (readString data cursor len) ↔
      (cursor + len ≤ data.length ∨ obtains len = false) := by
  unfold readString
  split
  · rename_i hIn
    exact iff_of_true spared_ok (Or.inl hIn)
  · rename_i hOut
    rw [spared_error, DecodeFault.Unsafe, Bool.not_eq_true, or_iff_right hOut]

namespace BaseMessage

variable {b : BaseMessage}

theorem spared_lengthAt {i : Nat} :
    Spared obtains (b.lengthAt i) ↔ i < b.arrayLikeLenghts.length := by
  unfold lengthAt
  split
  · rename_i hIn
    exact iff_of_true spared_ok hIn
  · rename_i hOut
    exact iff_of_false (fun h => spared_error.mp h trivial) hOut

theorem spared_popScalar {w : Nat} :
    Spared obtains (b.popScalar data w) ↔ b.mCursor + w ≤ data.length := by
  unfold popScalar
  rw [spared_bind_of_iff (fun r => readBytes_eq_ok) spared_readBytes]
  exact and_iff_left spared_ok

/-- What completes a `popString`, taken together. -/
theorem popString_ok_iff {r : Bytes × BaseMessage} : b.popString data = .ok r ↔
    (b.mArrayLikeIndex < b.arrayLikeLenghts.length ∧
      b.mCursor + b.pending.headD 0 ≤ data.length) ∧
    r = ((data.drop b.mCursor).take (b.pending.headD 0), b.advance 1 (b.pending.headD 0)) := by
  rw [popString_eq_ok, and_assoc]

theorem spared_popString : Spared obtains (b.popString data) ↔
    b.mArrayLikeIndex < b.arrayLikeLenghts.length ∧
      (b.mCursor + b.pending.headD 0 ≤ data.length ∨ obtains (b.pending.headD 0) = false) := by
  unfold popString
  rw [spared_bind_of_iff (fun r => lengthAt_eq_ok) spared_lengthAt,
    spared_bind (fun r => readString_eq_ok), spared_readString]
  exact and_congr_right fun _ => and_iff_left fun _ => spared_ok

/-- The loop over a vector stops at the first element that is not there. -/
theorem spared_popScalars {w n : Nat} {val : List (BitVec (8 * w))}
    (hCursor : b.mCursor ≤ data.length) :
    Spared obtains (popScalars data w n b val) ↔ b.mCursor + n * w ≤ data.length := by
  induction n generalizing b val with
  | zero =>
    rw [Nat.zero_mul, Nat.add_zero]
    exact iff_of_true spared_ok hCursor
  | succ n ih =>
    rw [popScalars, spared_bind_of_iff (fun r => popScalar_eq_ok) spared_popScalar]
    have hMul : (n + 1) * w = w + n * w := by rw [Nat.succ_mul, Nat.add_comm]
    constructor
    · rintro ⟨hIn, hRest⟩
      have hAll := (ih (b := b.advance 0 w) hIn).mp hRest
      rw [advance_mCursor] at hAll
      omega
    · intro hAll
      have hIn : b.mCursor + w ≤ data.length := by omega
      refine ⟨hIn, (ih (b := b.advance 0 w) hIn).mpr ?_⟩
      rw [advance_mCursor]
      omega

end BaseMessage

end

-- ---------------------------------------------------------------------------
-- Members
-- ---------------------------------------------------------------------------

/-- A string that is to have `len` bytes where `room` are left, and does not get its storage. -/
def Member.Refused (obtains : Nat → Bool) (room len : Nat) : Member → Prop
  | .string _ => room < len ∧ obtains len = false
  | .scalar _ _ | .vector _ _ | .strings _ => False

instance (obtains : Nat → Bool) (room len : Nat) : DecidablePred (Member.Refused obtains room len)
  | .string _ => inferInstanceAs (Decidable (_ ∧ _))
  | .scalar _ _ | .vector _ _ | .strings _ => isFalse id

/-- The table has an entry for each string and vector, and the `room` bytes that are left are
enough for the members, up to a string that is refused. -/
def Readable (obtains : Nat → Bool) : List Member → List Nat → Nat → Prop
  | [], _, _ => True
  | m :: ms, lens, room =>
    m.arity ≤ lens.length ∧
      (m.Refused obtains room (lens.headD 0) ∨ m.need (lens.headD 0) ≤ room ∧
        Readable obtains ms (lens.drop m.arity) (room - m.need (lens.headD 0)))

instance Readable.decidable (obtains : Nat → Bool) :
    ∀ ms lens room, Decidable (Readable obtains ms lens room)
  | [], _, _ => isTrue trivial
  | m :: ms, lens, room =>
    have := Readable.decidable obtains ms (lens.drop m.arity) (room - m.need (lens.headD 0))
    inferInstanceAs (Decidable (_ ∧ (_ ∨ _ ∧ _)))

/-- What is refused does not fit. -/
theorem Member.Refused.lt {m : Member} {room len : Nat} (h : m.Refused obtains room len) :
    room < m.need len := by
  cases m with
  | string val => exact h.1
  | scalar w val => exact h.elim
  | vector w val => exact h.elim
  | strings strs => exact h.elim

namespace BaseMessage

variable {data : Bytes} {b : BaseMessage}

/-- An entry of the table is left. -/
theorem lt_length_iff :
    b.mArrayLikeIndex < b.arrayLikeLenghts.length ↔ 1 ≤ b.pending.length := by
  rw [pending, List.length_drop]
  omega

theorem spared_popMember {m : Member} (hFlat : m.Flat) (hCursor : b.mCursor ≤ data.length) :
    Spared obtains (b.popMember data m) ↔ m.arity ≤ b.pending.length ∧
      (m.Refused obtains (data.length - b.mCursor) (b.pending.headD 0) ∨
        m.need (b.pending.headD 0) ≤ data.length - b.mCursor) := by
  cases m with
  | scalar w val =>
    rw [popMember, spared_bind_of_iff (fun r => popScalar_eq_ok) spared_popScalar]
    refine (and_iff_left spared_ok).trans ?_
    simp only [Member.arity, Member.Refused, Member.need, Nat.zero_le, true_and, false_or]
    omega
  | string val =>
    rw [popMember, spared_bind (fun r => popString_ok_iff)]
    refine (and_iff_left fun _ => spared_ok).trans ?_
    rw [spared_popString, lt_length_iff]
    simp only [Member.arity, Member.Refused, Member.need]
    refine and_congr_right ?_
    intro _
    -- a string that fits is not refused
    by_cases hIn : b.mCursor + b.pending.headD 0 ≤ data.length
    · exact iff_of_true (Or.inl hIn) (Or.inr (by omega))
    · rw [or_iff_right hIn, or_iff_left (by omega : ¬ b.pending.headD 0 ≤ data.length - b.mCursor)]
      exact ⟨fun hRefused => ⟨by omega, hRefused⟩, fun h => h.2⟩
  | vector w val =>
    have hLoop (r : List (BitVec (8 * w)) × BaseMessage) :
        popScalars data w (b.pending.headD 0) (b.advance 1 0) val = .ok r ↔ _ :=
      popScalars_eq_ok hCursor
    have hSpared : Spared obtains (popScalars data w (b.pending.headD 0) (b.advance 1 0) val) ↔
        (b.advance 1 0).mCursor + b.pending.headD 0 * w ≤ data.length :=
      spared_popScalars hCursor
    rw [popMember, spared_bind_of_iff (fun r => lengthAt_eq_ok) spared_lengthAt, lt_length_iff]
    dsimp only
    rw [show ((b.arrayLikeLenghts.drop b.mArrayLikeIndex).headD 0) = b.pending.headD 0 from rfl,
      show ({ b with mArrayLikeIndex := b.mArrayLikeIndex + 1 } : BaseMessage) = b.advance 1 0
        from rfl,
      spared_bind_of_iff hLoop hSpared]
    refine and_congr_right fun _ => (and_iff_left spared_ok).trans ?_
    simp only [Member.Refused, Member.need, advance_mCursor, Nat.add_zero, false_or]
    omega
  | strings strs => exact absurd hFlat id

/-- **Members** are spared exactly if the table and the data are enough for them, up to a string
that is refused. -/
theorem spared_popMembers {ms : List Member} (hFlat : ∀ m ∈ ms, m.Flat)
    (hCursor : b.mCursor ≤ data.length)
    (hIndex : b.mArrayLikeIndex ≤ b.arrayLikeLenghts.length) :
    Spared obtains (b.popMembers data ms) ↔
      Readable obtains ms b.pending (data.length - b.mCursor) := by
  induction ms generalizing b with
  | nil => exact iff_of_true spared_ok trivial
  | cons m ms ih =>
    have hm : m.Flat := hFlat m (by simp)
    have hms : ∀ m ∈ ms, m.Flat := fun m hm => hFlat m (by simp [hm])
    have hOk (r : Member × BaseMessage) : b.popMember data m = .ok r ↔
        (b.mArrayLikeIndex + m.arity ≤ b.arrayLikeLenghts.length ∧
          b.mCursor + m.need (b.pending.headD 0) ≤ data.length) ∧
        r = (m.parse (b.pending.headD 0) (data.drop b.mCursor),
          b.advance m.arity (m.need (b.pending.headD 0))) := by
      rw [popMember_eq_ok hm hCursor hIndex, and_assoc]
    have hArity : m.arity ≤ b.pending.length ↔
        b.mArrayLikeIndex + m.arity ≤ b.arrayLikeLenghts.length := by
      rw [pending, List.length_drop]
      omega
    have hNeed : m.need (b.pending.headD 0) ≤ data.length - b.mCursor ↔
        b.mCursor + m.need (b.pending.headD 0) ≤ data.length := by
      omega
    -- behind `m`, the rest is spared as the induction says
    have hRest (hFits : b.mArrayLikeIndex + m.arity ≤ b.arrayLikeLenghts.length ∧
          b.mCursor + m.need (b.pending.headD 0) ≤ data.length) :
        Spared obtains ((b.advance m.arity (m.need (b.pending.headD 0))).popMembers data ms) ↔
          Readable obtains ms (b.pending.drop m.arity)
            (data.length - b.mCursor - m.need (b.pending.headD 0)) := by
      have hSpec := ih (b := b.advance m.arity (m.need (b.pending.headD 0))) hms hFits.2 hFits.1
      rwa [advance_pending, advance_mCursor, ← Nat.sub_sub] at hSpec
    have hLast {x : Except DecodeFault (List Member × BaseMessage)} {m' : Member} :
        Spared obtains (x >>= fun r => pure (m' :: r.1, r.2)) ↔ Spared obtains x := by
      cases x with
      | error fault => rw [spared_error]; exact spared_error
      | ok r => exact iff_of_true spared_ok spared_ok
    rw [popMembers, spared_bind hOk, spared_popMember hm hCursor, Readable, hArity, hNeed]
    constructor
    · rintro ⟨⟨hEntry, hSpared⟩, hFits⟩
      refine ⟨hEntry, hSpared.imp_right fun hIn => ⟨hIn, ?_⟩⟩
      exact (hRest ⟨hEntry, hIn⟩).mp (hLast.mp (hFits ⟨hEntry, hIn⟩))
    · rintro ⟨hEntry, hSpared⟩
      refine ⟨⟨hEntry, hSpared.imp_right And.left⟩, fun hFits => hLast.mpr ?_⟩
      rcases hSpared with hRefused | ⟨-, hReadable⟩
      · exact absurd hRefused.lt (by omega)
      · exact (hRest hFits).mpr hReadable

theorem spared_fillArrayLike {n : Nat} (hCursor : b.mCursor ≤ data.length) :
    Spared obtains (fillArrayLike data n b) ↔ b.mCursor + 8 * n ≤ data.length := by
  induction n generalizing b with
  | zero => exact iff_of_true spared_ok hCursor
  | succ n ih =>
    rw [fillArrayLike, spared_bind_of_iff (fun r => popScalar_eq_ok) spared_popScalar]
    constructor
    · rintro ⟨hIn, hRest⟩
      have hAll := (ih hIn).mp hRest
      dsimp only [advance_mCursor] at hAll
      omega
    · intro hAll
      have hIn : b.mCursor + 8 ≤ data.length := by omega
      refine ⟨hIn, (ih hIn).mpr ?_⟩
      dsimp only [advance_mCursor]
      omega

end BaseMessage

-- ---------------------------------------------------------------------------
-- Frames
-- ---------------------------------------------------------------------------

namespace MessageObject

variable {data : Bytes} {m : MessageObject}

/-- The frame holds its table, and what follows is enough for the name and the members, up to
a string that is refused. -/
structure Decodable (obtains : Nat → Bool) (data : Bytes) (m : MessageObject) : Prop where
  table_fits : 16 + 8 * wireSize data ≤ data.length
  readable : Readable obtains (.string m.msgName :: m.members) (m.table data)
    (data.length - (16 + 8 * wireSize data))

instance (obtains : Nat → Bool) (data : Bytes) (m : MessageObject) :
    Decidable (m.Decodable obtains data) :=
  decidable_of_iff (16 + 8 * wireSize data ≤ data.length ∧
      Readable obtains (.string m.msgName :: m.members) (m.table data)
        (data.length - (16 + 8 * wireSize data)))
    ⟨fun h => ⟨h.1, h.2⟩, fun h => ⟨h.1, h.2⟩⟩

theorem pending_filled : ((m.headed data).filled data (wireSize data)).pending = m.table data := rfl

/-- The header is spared up to the name. -/
theorem spared_deserializeHelper : Spared obtains (m.toBaseMessage.deserializeHelper data) ↔
    16 + 8 * wireSize data ≤ data.length ∧ 1 ≤ (m.table data).length ∧
      (16 + 8 * wireSize data + (m.table data).headD 0 ≤ data.length ∨
        obtains ((m.table data).headD 0) = false) := by
  have hLen : (BitVec.ofNat (8 * 8) (decode ((data.drop 0).take 8))).toNat =
      decode (data.take 8) :=
    BaseMessage.toNat_ofNat_decode (by rw [List.length_take]; omega)
  have hSize : (BitVec.ofNat (8 * 8) (decode ((data.drop (0 + 8)).take 8))).toNat =
      wireSize data :=
    BaseMessage.toNat_ofNat_decode (by rw [List.length_take]; omega)
  rw [BaseMessage.deserializeHelper,
    spared_bind_of_iff (fun r => BaseMessage.popScalar_eq_ok) BaseMessage.spared_popScalar]
  dsimp only
  rw [spared_bind_of_iff (fun r => BaseMessage.popScalar_eq_ok) BaseMessage.spared_popScalar]
  simp only [BaseMessage.advance, hLen, hSize]
  -- the object is `headed` now
  change (0 + 8 ≤ data.length ∧ 0 + 8 + 8 ≤ data.length ∧
    Spared obtains (BaseMessage.fillArrayLike data (wireSize data) (m.headed data) >>= _)) ↔ _
  by_cases hIn : 16 ≤ data.length
  · rw [spared_bind_of_iff (fun r => BaseMessage.fillArrayLike_eq_ok hIn)
      (BaseMessage.spared_fillArrayLike hIn)]
    rw [spared_bind (fun r => BaseMessage.popString_ok_iff), BaseMessage.spared_popString,
      BaseMessage.lt_length_iff, pending_filled]
    show (0 + 8 ≤ data.length ∧ 0 + 8 + 8 ≤ data.length ∧
      16 + 8 * wireSize data ≤ data.length ∧ (1 ≤ (m.table data).length ∧
        (16 + 8 * wireSize data + (m.table data).headD 0 ≤ data.length ∨ _)) ∧ _) ↔ _
    rw [and_iff_right (by omega), and_iff_right (by omega)]
    exact and_congr_right fun _ => and_iff_left fun _ => spared_ok
  · exact iff_of_false (fun h => hIn h.2.1) fun h => hIn (by have := h.1; omega)

/-- **Decoding, its failures.** For flat members `deserialize` is spared exactly on the frames
that are `Decodable` with the table it completes. -/
theorem spared_deserialize (hFlat : ∀ a ∈ m.members, a.Flat) :
    Spared obtains (m.deserialize data) ↔ m.Decodable obtains data := by
  have hOk (r : BaseMessage) : m.toBaseMessage.deserializeHelper data = .ok r ↔
      (16 + 8 * wireSize data ≤ data.length ∧
        m.mArrayLikeIndex + 1 ≤ m.arrayLikeLenghts.length + wireSize data ∧
        16 + 8 * wireSize data + (m.table data).headD 0 ≤ data.length) ∧ r = m.helped data := by
    rw [deserializeHelper_eq_ok, and_assoc, and_assoc]
  have hTable : m.mArrayLikeIndex + 1 ≤ m.arrayLikeLenghts.length + wireSize data ↔
      1 ≤ (m.table data).length := by
    rw [table, List.length_drop, List.length_append, wireTable, decodeMany_length]
    omega
  have hPending : (m.helped data).pending = (m.table data).drop 1 := by
    rw [BaseMessage.pending, table, List.drop_drop]
    rfl
  have hLast {x : Except DecodeFault (List Member × BaseMessage)} :
      Spared obtains (x >>= fun r => pure (⟨r.2, r.1⟩ : MessageObject)) ↔ Spared obtains x := by
    cases x with
    | error fault => rw [spared_error]; exact spared_error
    | ok r => exact iff_of_true spared_ok spared_ok
  have hMembers (hEntry : 1 ≤ (m.table data).length)
      (hName : 16 + 8 * wireSize data + (m.table data).headD 0 ≤ data.length) :
      Spared obtains ((m.helped data).popMembers data m.members) ↔
        Readable obtains m.members ((m.table data).drop 1)
          (data.length - (16 + 8 * wireSize data) - (m.table data).headD 0) := by
    have hLens : (m.helped data).mArrayLikeIndex ≤ (m.helped data).arrayLikeLenghts.length := by
      show m.mArrayLikeIndex + 1 ≤ (m.arrayLikeLenghts ++ wireTable data).length
      rw [List.length_append, wireTable, decodeMany_length]
      exact hTable.mpr hEntry
    rw [BaseMessage.spared_popMembers hFlat (b := m.helped data) hName hLens, hPending, Nat.sub_sub]
    rfl
  rw [deserialize, spared_bind hOk, spared_deserializeHelper, hTable]
  constructor
  · rintro ⟨⟨hFits, hEntry, hName⟩, hRest⟩
    refine ⟨hFits, hEntry, ?_⟩
    by_cases hIn : 16 + 8 * wireSize data + (m.table data).headD 0 ≤ data.length
    · refine Or.inr ⟨?_, (hMembers hEntry hIn).mp (hLast.mp (hRest ⟨hFits, hEntry, hIn⟩))⟩
      show (m.table data).headD 0 ≤ _
      omega
    · exact Or.inl ⟨by omega, hName.resolve_left hIn⟩
  · rintro ⟨hFits, hEntry, hName⟩
    refine ⟨⟨hFits, hEntry, ?_⟩, fun hAll => hLast.mpr ?_⟩
    · rcases hName with hRefused | ⟨hIn, -⟩
      · exact Or.inr hRefused.2
      · exact Or.inl (by have hIn : (m.table data).headD 0 ≤ _ := hIn; omega)
    · rcases hName with hRefused | ⟨-, hReadable⟩
      · have hLt : data.length - (16 + 8 * wireSize data) < (m.table data).headD 0 := hRefused.1
        have hIn := hAll.2.2
        omega
      · exact (hMembers hEntry hAll.2.2).mpr hReadable

end MessageObject

end WarringServer.Message
