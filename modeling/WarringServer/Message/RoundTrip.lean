import WarringServer.Message.Schema

/-!
# Codec round trip

`count`, `serialize` and `deserialize` agree on the wire format.

* `serialize_fresh` — on a fresh object `count` and `serialize` produce `wire`;
* `deserialize_wire` — a fresh object that deserialises `wire` gets the sender's
  members;
* `codec_round_trip` — both together, for every schema and every content.

The sending side is stated over `written bs room`: an allocation whose first bytes
are `bs` and whose last `room` bytes were not written, with the cursor in
between. Each `push` function moves bytes from `room` to `bs`.
-/

namespace WarringServer.Message

open LittleEndian

namespace BaseMessage

-- ---------------------------------------------------------------------------
-- Counting
-- ---------------------------------------------------------------------------

/-- `n` bytes and the table entries `lens` counted. -/
def counted (n : Nat) (lens : List Nat) (b : BaseMessage) : BaseMessage :=
  { b with
    msgLen := b.msgLen + n
    arrayLikeLenghts := b.arrayLikeLenghts ++ lens
    arrayLikeSSize := b.arrayLikeSSize + lens.length }

theorem counted_counted (n n' : Nat) (lens lens' : List Nat) (b : BaseMessage) :
    (b.counted n lens).counted n' lens' = b.counted (n + n') (lens ++ lens') := by
  simp [counted, Nat.add_assoc]

theorem counted_zero (b : BaseMessage) : b.counted 0 [] = b := by
  simp [counted]

theorem countStrings (strs : List Bytes) (b : BaseMessage) :
    strs.foldl countString b = b.counted strs.flatten.length (strs.map List.length) := by
  induction strs generalizing b with
  | nil => exact (counted_zero b).symm
  | cons s strs ih =>
    have hOne : b.countString s = b.counted s.length [s.length] := rfl
    rw [List.foldl_cons, ih, hOne, counted_counted, List.flatten_cons, List.length_append]
    rfl

theorem countLength_eq (b : BaseMessage) (m : Member) :
    b.countLength m = b.counted m.image.length m.lengths := by
  cases m with
  | scalar w val => simp [countLength, counted, Member.image, Member.lengths]
  | string val => rfl
  | vector w val =>
    simp [countLength, counted, Member.image, Member.lengths, Nat.mul_comm w]
  | strings strs => exact countStrings strs b

theorem countCapacity_eq (b : BaseMessage) (ms : List Member) :
    b.countCapacity ms = b.counted (image ms).length (lengths ms) := by
  induction ms generalizing b with
  | nil => exact (counted_zero b).symm
  | cons m ms ih =>
    calc b.countCapacity (m :: ms)
        = (b.countLength m).countCapacity ms := rfl
      _ = (b.counted m.image.length m.lengths).counted (image ms).length (lengths ms) := by
          rw [ih, countLength_eq]
      _ = b.counted (image (m :: ms)).length (lengths (m :: ms)) := by
          rw [counted_counted, image_cons, List.length_append, lengths_cons]

-- ---------------------------------------------------------------------------
-- Writing
-- ---------------------------------------------------------------------------

/-- The allocation holds `bs` and has room for `room` more bytes. -/
def written (bs : Bytes) (room : Nat) (b : BaseMessage) : BaseMessage :=
  { b with mData := bs.map some ++ List.replicate room none, mCursor := bs.length }

theorem pushBytes_written (b : BaseMessage) (bs src : Bytes) (room : Nat) :
    (b.written bs (src.length + room)).pushBytes src = some (b.written (bs ++ src) room) := by
  have hRoom : bs.length + src.length ≤
      (bs.map some ++ List.replicate (src.length + room) (none : Option UInt8)).length := by
    rw [List.length_append, List.length_map, List.length_replicate]
    omega
  have hFront : (bs.map some ++ List.replicate (src.length + room) none).take bs.length =
      bs.map some := List.take_left' (List.length_map some)
  have hBack : (bs.map some ++ List.replicate (src.length + room) none).drop
      (bs.length + src.length) = List.replicate room (none : Option UInt8) := by
    rw [← List.drop_drop, List.drop_left' (List.length_map some), List.drop_replicate,
      Nat.add_sub_cancel_left]
  have hCopy : memcpy (bs.map some ++ List.replicate (src.length + room) none) bs.length src =
      some (bs.map some ++ src.map some ++ List.replicate room none) := by
    rw [memcpy, if_pos hRoom, hFront, hBack]
  calc (b.written bs (src.length + room)).pushBytes src
      = (memcpy (bs.map some ++ List.replicate (src.length + room) none) bs.length src >>=
          fun mData => some { b with mData := mData, mCursor := bs.length + src.length }) := rfl
    _ = some { b with
          mData := bs.map some ++ src.map some ++ List.replicate room none
          mCursor := bs.length + src.length } := by rw [hCopy]; rfl
    _ = some (b.written (bs ++ src) room) := by rw [written, List.map_append, List.length_append]

theorem pushStrings_written (strs : List Bytes) (b : BaseMessage) (bs : Bytes) (room : Nat) :
    strs.foldlM pushBytes (b.written bs (strs.flatten.length + room)) =
      some (b.written (bs ++ strs.flatten) room) := by
  induction strs generalizing bs with
  | nil => simp
  | cons s strs ih =>
    rw [List.foldlM_cons, List.flatten_cons, List.length_append, Nat.add_assoc,
      pushBytes_written, ← List.append_assoc]
    exact ih (bs ++ s)

theorem pushScalars_written {w : Nat} (val : List (BitVec (8 * w))) (b : BaseMessage)
    (bs : Bytes) (room : Nat) :
    val.foldlM (fun b m => b.pushBytes (encode w m.toNat))
        (b.written bs ((encodeMany w (val.map BitVec.toNat)).length + room)) =
      some (b.written (bs ++ encodeMany w (val.map BitVec.toNat)) room) := by
  induction val generalizing bs with
  | nil => simp
  | cons v val ih =>
    rw [List.foldlM_cons, List.map_cons, encodeMany_cons, List.length_append, Nat.add_assoc,
      pushBytes_written, ← List.append_assoc]
    exact ih (bs ++ encode w v.toNat)

theorem pushMember_written (m : Member) (b : BaseMessage) (bs : Bytes) (room : Nat) :
    (b.written bs (m.image.length + room)).pushMember m =
      some (b.written (bs ++ m.image) room) := by
  cases m with
  | scalar w val => exact pushBytes_written b bs (encode w val.toNat) room
  | string val => exact pushBytes_written b bs val room
  | vector w val => exact pushScalars_written val b bs room
  | strings strs => exact pushStrings_written strs b bs room

theorem pushMembers_written (ms : List Member) (b : BaseMessage) (bs : Bytes) (room : Nat) :
    (b.written bs ((image ms).length + room)).pushMembers ms =
      some (b.written (bs ++ image ms) room) := by
  induction ms generalizing bs with
  | nil => simp [pushMembers]
  | cons m ms ih =>
    have hCons : (b.written bs ((image (m :: ms)).length + room)).pushMembers (m :: ms) =
        (b.written bs (m.image.length + ((image ms).length + room))).pushMember m >>=
          fun b => b.pushMembers ms := by
      rw [image_cons, List.length_append, Nat.add_assoc]
      rfl
    rw [hCons, pushMember_written, image_cons, ← List.append_assoc]
    exact ih (bs ++ m.image)

end BaseMessage

namespace MessageObject

/-- A fresh object after `count`. -/
def counted (msgName : Bytes) (ms : List Member) : MessageObject :=
  { fresh msgName ms with
    msgLen := wireLength msgName ms
    arrayLikeLenghts := tableOf msgName ms
    arrayLikeSSize := (tableOf msgName ms).length }

/-- **Counting.** The size of the frame and its table, on top of what has been counted
before; the entries from before are counted once more. -/
theorem count_eq (m : MessageObject) :
    m.count = { m with
      msgLen := m.msgLen + 8 * m.arrayLikeLenghts.length + wireLength m.msgName m.members
      arrayLikeLenghts := m.arrayLikeLenghts ++ tableOf m.msgName m.members
      arrayLikeSSize := m.arrayLikeSSize + (tableOf m.msgName m.members).length } := by
  -- the name and the two header fields, without the table itself
  have hHelper : m.toBaseMessage.countHelper =
      m.toBaseMessage.counted (m.msgName.length + 16) [m.msgName.length] := by
    rw [BaseMessage.countHelper, BaseMessage.countCapacity_eq]
    simp [image, lengths, Member.image, Member.lengths]
  -- `count` adds 8 bytes for each entry of the table at its end
  have hLen : m.msgLen + (m.msgName.length + 16 + (image m.members).length) +
      8 * (m.arrayLikeLenghts.length + (1 + (lengths m.members).length)) =
        m.msgLen + 8 * m.arrayLikeLenghts.length + wireLength m.msgName m.members := by
    rw [wireLength, tableOf, List.length_cons]
    omega
  simp only [count, hHelper, BaseMessage.countCapacity_eq, BaseMessage.counted_counted]
  simp [BaseMessage.counted, tableOf, ← hLen, Nat.add_comm]

theorem count_fresh (msgName : Bytes) (ms : List Member) :
    (fresh msgName ms).count = counted msgName ms := by
  rw [count_eq]
  simp [counted, fresh]

theorem ofNat_toNat_of_lt {n : Nat} (h : n < 2 ^ 64) : (BitVec.ofNat (8 * 8) n).toNat = n := by
  rw [BitVec.toNat_ofNat]
  exact Nat.mod_eq_of_lt h

/-- The four header members are the beginning of the frame. -/
theorem serializeHelper_counted {msgName : Bytes} {ms : List Member}
    (h : wireLength msgName ms < 2 ^ 64) (hLens : ∀ n ∈ tableOf msgName ms, n < 2 ^ 64) :
    (counted msgName ms).serializeHelper = some ((counted msgName ms).written
      (encode 8 (wireLength msgName ms) ++ encode 8 (tableOf msgName ms).length ++
        encodeMany 8 (tableOf msgName ms) ++ msgName) (image ms).length) := by
  have hSize : (tableOf msgName ms).length < 2 ^ 64 := tableOf_length_lt h
  have hTable : ((tableOf msgName ms).map (BitVec.ofNat (8 * 8))).map BitVec.toNat =
      tableOf msgName ms := by
    rw [List.map_map]
    conv_rhs => rw [← List.map_id (tableOf msgName ms)]
    exact List.map_congr_left fun n hn => ofNat_toNat_of_lt (hLens n hn)
  have hImage : image [.scalar 8 (.ofNat _ (wireLength msgName ms)),
        .scalar 8 (.ofNat _ (tableOf msgName ms).length),
        .vector 8 ((tableOf msgName ms).map (.ofNat _)), .string msgName] =
      encode 8 (wireLength msgName ms) ++ encode 8 (tableOf msgName ms).length ++
        encodeMany 8 (tableOf msgName ms) ++ msgName := by
    simp only [image_cons, image_nil, Member.image, ofNat_toNat_of_lt h, ofNat_toNat_of_lt hSize,
      hTable, List.append_nil, List.append_assoc]
  -- the allocation is as long as the header and the members
  have hRoom : wireLength msgName ms = (encode 8 (wireLength msgName ms) ++
      encode 8 (tableOf msgName ms).length ++ encodeMany 8 (tableOf msgName ms) ++
      msgName).length + (image ms).length := by
    rw [← List.length_append]
    exact (wire_length msgName ms).symm
  have hPush := BaseMessage.pushMembers_written
    [.scalar 8 (.ofNat _ (wireLength msgName ms)),
      .scalar 8 (.ofNat _ (tableOf msgName ms).length),
      .vector 8 ((tableOf msgName ms).map (.ofNat _)), .string msgName]
    (counted msgName ms).toBaseMessage [] (image ms).length
  rw [hImage, ← hRoom, List.nil_append] at hPush
  exact hPush

/-- **Sending.** `serialize` fills the allocation of `MSG_LEN` bytes with the frame. -/
theorem serialize_fresh {msgName : Bytes} {ms : List Member}
    (h : wireLength msgName ms < 2 ^ 64) (hLens : ∀ n ∈ tableOf msgName ms, n < 2 ^ 64) :
    (fresh msgName ms).count.serialize = some ((wire msgName ms).map some,
      ⟨(counted msgName ms).written (wire msgName ms) 0, ms⟩) := by
  have hMembers := BaseMessage.pushMembers_written ms (counted msgName ms).toBaseMessage
    (encode 8 (wireLength msgName ms) ++ encode 8 (tableOf msgName ms).length ++
      encodeMany 8 (tableOf msgName ms) ++ msgName) 0
  rw [Nat.add_zero] at hMembers
  have hTake : (((counted msgName ms).written (wire msgName ms) 0).mData).take
      (wireLength msgName ms) = (wire msgName ms).map some := by
    show ((wire msgName ms).map some ++ []).take (wireLength msgName ms) = _
    rw [List.append_nil, List.take_of_length_le]
    rw [List.length_map, wire_length]
  rw [count_fresh, serialize, serializeHelper_counted h hLens]
  show ((((counted msgName ms).written _ (image ms).length).pushMembers ms) >>= fun b => _) = _
  rw [hMembers]
  exact congrArg some (Prod.ext hTake rfl)

end MessageObject

-- ---------------------------------------------------------------------------
-- Receiving
-- ---------------------------------------------------------------------------

namespace BaseMessage

theorem popMembers_append {data : Bytes} {xs ys xs' ys' : List Member} {b b' b'' : BaseMessage}
    (hxs : b.popMembers data xs = .ok (xs', b')) (hys : b'.popMembers data ys = .ok (ys', b'')) :
    b.popMembers data (xs ++ ys) = .ok (xs' ++ ys', b'') := by
  induction xs generalizing b xs' with
  | nil =>
    obtain ⟨rfl, rfl⟩ := Prod.mk.inj (Except.ok.inj hxs)
    exact hys
  | cons x xs ih =>
    simp only [popMembers, bind_eq_ok, pure_eq_ok] at hxs
    obtain ⟨⟨x', b₁⟩, hHead, ⟨tail, b₂⟩, hTail, hEq⟩ := hxs
    obtain ⟨rfl, rfl⟩ := Prod.mk.inj hEq
    simp only [List.cons_append, popMembers, bind_eq_ok, pure_eq_ok]
    exact ⟨(x', b₁), hHead, (tail ++ ys', b''), ih hTail, rfl⟩

/-- The loop over a vector of strings reads the strings whose lengths stand in the
table from `i` on. -/
theorem popStrings_image {data : Bytes} {strs : List Bytes} {i : Nat} {b : BaseMessage}
    {val : List Bytes} (hCursor : b.mCursor ≤ data.length)
    (hTable : b.arrayLikeLenghts.drop i = strs.map List.length)
    (hData : data.drop b.mCursor = strs.flatten) :
    popStrings data strs.length i b val =
      .ok (val ++ strs, b.advance 0 strs.flatten.length) := by
  induction strs generalizing i b val with
  | nil =>
    rw [List.append_nil]
    rfl
  | cons s strs ih =>
    rw [List.flatten_cons] at hData
    -- the table still has the entry of `s`, and the data its bytes
    have hIndex : i < b.arrayLikeLenghts.length := by
      have hLen := congrArg List.length hTable
      rw [List.length_drop, List.length_map, List.length_cons] at hLen
      omega
    have hIn : b.mCursor + s.length ≤ data.length := by
      have hLen := congrArg List.length hData
      rw [List.length_drop, List.length_append] at hLen
      omega
    have hEntry : b.lengthAt i = .ok s.length :=
      lengthAt_eq_ok.mpr ⟨hIndex, by rw [hTable]; rfl⟩
    have hRaw : readString data b.mCursor s.length = .ok s :=
      readString_eq_ok.mpr ⟨hIn, by rw [hData, List.take_left]⟩
    -- behind `s` the assumptions hold for the other strings
    have hTable' : (b.advance 0 s.length).arrayLikeLenghts.drop (i + 1) =
        strs.map List.length := by
      rw [advance_arrayLikeLenghts, ← List.drop_drop, hTable]
      rfl
    have hData' : data.drop (b.advance 0 s.length).mCursor = strs.flatten := by
      rw [advance_mCursor, ← List.drop_drop, hData, List.drop_left]
    have hRest : popStrings data strs.length (i + 1) (b.advance 0 s.length) (val ++ [s]) = _ :=
      ih hIn hTable' hData'
    rw [advance_advance, List.append_assoc, List.singleton_append] at hRest
    rw [List.length_cons, List.flatten_cons, List.length_append, popStrings, hEntry]
    show (readString data b.mCursor s.length >>= fun raw => _) = _
    rw [hRaw]
    exact hRest

end BaseMessage

/-- The members of a schema: flat ones, and maybe a vector of strings behind them. -/
theorem Schema.split (schema : Schema) {ms : List Member}
    (hKinds : ms.map Member.kind = schema.kinds) :
    ∃ init tail, ms = init ++ tail ∧ (∀ m ∈ init, m.Flat) ∧
      (tail = [] ∨ ∃ strs, tail = [.strings strs]) := by
  have hInit : ∀ m ∈ ms.dropLast, m.Flat := by
    intro m hm
    rw [Member.flat_iff_kind]
    refine schema.strings_last m.kind ?_
    rw [← hKinds, ← List.map_dropLast]
    exact List.mem_map_of_mem hm
  rcases List.eq_nil_or_concat ms with rfl | ⟨init, last, rfl⟩
  · exact ⟨[], [], rfl, by simp, Or.inl rfl⟩
  · rw [List.concat_eq_append, List.dropLast_concat] at hInit
    -- only the last member can be a vector of strings
    cases last with
    | strings strs => exact ⟨init, [.strings strs], by simp, hInit, Or.inr ⟨strs, rfl⟩⟩
    | _ =>
      refine ⟨_, [], (List.append_nil _).symm, ?_, Or.inl rfl⟩
      intro m hm
      rw [List.concat_eq_append] at hm
      rcases List.mem_append.mp hm with hm | hm
      · exact hInit m hm
      · rw [List.mem_singleton.mp hm]
        exact trivial

/-- No length of the table is cut off when it is written as a `size_t`. -/
theorem Schema.lengths_lt (schema : Schema) {msgName : Bytes} {ms : List Member}
    (hKinds : ms.map Member.kind = schema.kinds) (h : wireLength msgName ms < 2 ^ 64) :
    ∀ n ∈ tableOf msgName ms, n < 2 ^ 64 := by
  intro n hn
  rw [wireLength] at h
  rcases List.mem_cons.mp hn with rfl | hn
  · omega
  · obtain ⟨m, hm, hn⟩ := List.mem_flatMap.mp hn
    have hLe : n ≤ m.image.length := by
      refine Member.lengths_le (fun w hw => schema.vector_width_pos w ?_) hn
      rw [← hKinds, ← hw]
      exact List.mem_map_of_mem hm
    have hImage : m.image.length ≤ (image ms).length :=
      (List.sublist_flatten_of_mem (List.mem_map_of_mem hm)).length_le
    omega

/-- Fresh members are read from an image that ends the data, under a table that ends
with their lengths. -/
theorem BaseMessage.popMembers_image (schema : Schema) {data : Bytes} {ms blank : List Member}
    {b : BaseMessage} (hKinds : ms.map Member.kind = schema.kinds)
    (hSame : blank.map Member.kind = schema.kinds) (hBlank : ∀ a ∈ blank, a.Blank)
    (hCursor : b.mCursor ≤ data.length) (hData : data.drop b.mCursor = image ms)
    (hIndex : b.mArrayLikeIndex ≤ b.arrayLikeLenghts.length) (hPending : b.pending = lengths ms)
    (hSize : b.arrayLikeSSize = b.arrayLikeLenghts.length) :
    ∃ k, b.popMembers data blank = .ok (ms, b.advance k (image ms).length) := by
  -- the flat members first, then the vector of strings if there is one
  obtain ⟨init, tail, rfl, hFlat, hTail⟩ := schema.split hKinds
  have hSplit : blank.map Member.kind = init.map Member.kind ++ tail.map Member.kind := by
    rw [hSame, ← hKinds, List.map_append]
  obtain ⟨blankInit, blankTail, rfl, hInitKinds, hTailKinds⟩ := List.map_eq_append_iff.mp hSplit
  have hImage : image (init ++ tail) = image init ++ image tail := List.flatMap_append
  have hLengths : lengths (init ++ tail) = lengths init ++ lengths tail := List.flatMap_append
  rw [hImage] at hData
  rw [hLengths] at hPending
  obtain ⟨hLayout, hParse⟩ := parse_image hInitKinds
    (fun a ha => hBlank a (List.mem_append_left _ ha)) hFlat (lengths tail) (image tail)
  have hBytes : (image init).length + (image tail).length = data.length - b.mCursor := by
    rw [← List.length_append, ← hData, List.length_drop]
  have hEntries : arity init + (lengths tail).length =
      b.arrayLikeLenghts.length - b.mArrayLikeIndex := by
    rw [← lengths_length hFlat, ← List.length_append, ← hPending, pending, List.length_drop]
  -- the entries of the tail are left in the table, its bytes in the data
  have hInit : b.popMembers data blankInit =
      .ok (init, b.advance (arity init) (image init).length) := by
    refine (popMembers_eq_ok (flat_of_kinds hInitKinds hFlat) hCursor hIndex).mpr ⟨?_, ?_, ?_⟩
    · rw [arity_of_kinds hInitKinds]
      omega
    · rw [hPending, hLayout]
      omega
    · rw [hPending, hData, hLayout, hParse, arity_of_kinds hInitKinds]
  have hRest : (b.advance (arity init) (image init).length).popMembers data blankTail =
      .ok (tail, b.advance (arity init) (image (init ++ tail)).length) := by
    rcases hTail with rfl | ⟨strs, rfl⟩
    · rw [List.map_eq_nil_iff.mp hTailKinds, List.append_nil]
      rfl
    · obtain ⟨a, rest, rfl, hKind, hNil⟩ := List.map_eq_cons_iff.mp hTailKinds
      rw [List.map_eq_nil_iff.mp hNil]
      cases a with
      | strings val =>
        obtain rfl : val = [] := hBlank (.strings val) (by simp)
        have hStrs : lengths [.strings strs] = strs.map List.length := List.append_nil _
        have hFlatten : image [.strings strs] = strs.flatten := List.append_nil _
        rw [hStrs] at hEntries hPending
        rw [hFlatten] at hBytes hData
        -- the loop runs to the end of the table
        have hCount : b.arrayLikeSSize - (b.mArrayLikeIndex + arity init) = strs.length := by
          rw [List.length_map] at hEntries
          omega
        have hTable : (b.advance (arity init) (image init).length).arrayLikeLenghts.drop
            (b.mArrayLikeIndex + arity init) = strs.map List.length := by
          rw [advance_arrayLikeLenghts, ← List.drop_drop, ← pending, hPending,
            List.drop_left' (lengths_length hFlat)]
        have hRest : data.drop (b.advance (arity init) (image init).length).mCursor =
            strs.flatten := by
          rw [advance_mCursor, ← List.drop_drop, hData, List.drop_left]
        have hLoop : popStrings data strs.length (b.mArrayLikeIndex + arity init)
            (b.advance (arity init) (image init).length) [] = _ :=
          popStrings_image (by rw [advance_mCursor]; omega) hTable hRest
        rw [advance_advance, Nat.add_zero, List.nil_append, ← List.length_append, ← hFlatten,
          ← hImage, ← hCount] at hLoop
        simp only [popMembers, popMember, bind_eq_ok, pure_eq_ok]
        exact ⟨_, ⟨_, hLoop, rfl⟩, _, rfl, rfl⟩
      | _ => exact absurd hKind (by simp [Member.kind])
  exact ⟨_, popMembers_append hInit hRest⟩

namespace MessageObject

section

variable {msgName : Bytes} {ms blank : List Member}

/-- What `deserializeHelper` makes of a frame. -/
theorem deserializeHelper_wire (name₀ : Bytes) (h : wireLength msgName ms < 2 ^ 64)
    (hLens : ∀ n ∈ tableOf msgName ms, n < 2 ^ 64) :
    (fresh name₀ blank).toBaseMessage.deserializeHelper (wire msgName ms) =
      .ok { msgName := msgName
            msgLen := wireLength msgName ms
            mData := []
            arrayLikeLenghts := tableOf msgName ms
            arrayLikeSSize := (tableOf msgName ms).length
            mArrayLikeIndex := 1
            mCursor := 16 + 8 * (tableOf msgName ms).length + msgName.length } := by
  have hTable : (fresh name₀ blank).table (wire msgName ms) = tableOf msgName ms := by
    rw [table, wireTable_wire h hLens]
    rfl
  have hHead : (tableOf msgName ms).headD 0 = msgName.length := rfl
  have hSplit : wireLength msgName ms =
      16 + 8 * (tableOf msgName ms).length + msgName.length + (image ms).length := rfl
  refine deserializeHelper_eq_ok.mpr ⟨?_, ?_, ?_, ?_⟩
  · rw [wireSize_wire h, wire_length]
    omega
  · rw [wireSize_wire h, tableOf, List.length_cons]
    show 0 + 1 ≤ 0 + ((lengths ms).length + 1)
    omega
  · rw [wireSize_wire h, hTable, hHead, wire_length]
    omega
  · simp only [helped, hTable, hHead, wireSize_wire h, wireTable_wire h hLens, payload_wire h,
      wire_take h, List.take_left]
    rfl

/-- **Receiving.** A fresh object of the sender's class, given a frame of the
sender, gets the sender's name and members and reads the frame to its end. -/
theorem deserialize_wire (schema : Schema) (hKinds : ms.map Member.kind = schema.kinds)
    (hSame : blank.map Member.kind = schema.kinds) (hBlank : ∀ a ∈ blank, a.Blank)
    (name₀ : Bytes) (h : wireLength msgName ms < 2 ^ 64) :
    ∃ received, (fresh name₀ blank).deserialize (wire msgName ms) = .ok received ∧
      received.msgName = msgName ∧ received.members = ms ∧
      received.mCursor = wireLength msgName ms := by
  have hHelper := @deserializeHelper_wire msgName ms blank name₀ h (schema.lengths_lt hKinds h)
  -- the object behind the header: the name took the first entry of the table
  set b : BaseMessage :=
    { msgName := msgName
      msgLen := wireLength msgName ms
      mData := []
      arrayLikeLenghts := tableOf msgName ms
      arrayLikeSSize := (tableOf msgName ms).length
      mArrayLikeIndex := 1
      mCursor := 16 + 8 * (tableOf msgName ms).length + msgName.length } with hb
  have hCursor : b.mCursor + (image ms).length = wireLength msgName ms := rfl
  have hData : (wire msgName ms).drop b.mCursor = image ms := by
    show (wire msgName ms).drop (16 + 8 * (tableOf msgName ms).length + msgName.length) = _
    rw [← List.drop_drop, ← List.drop_drop, wire_drop_sixteen,
      List.drop_left' (by rw [encodeMany_length, Nat.mul_comm]), List.drop_left]
  obtain ⟨k, hPop⟩ := BaseMessage.popMembers_image schema (b := b) hKinds hSame hBlank
    (by rw [wire_length]; omega) hData (by simp [hb, tableOf]) rfl rfl
  refine ⟨⟨b.advance k (image ms).length, ms⟩, ?_, rfl, rfl, hCursor⟩
  simp only [deserialize, bind_eq_ok, pure_eq_ok]
  exact ⟨b, hHelper, _, hPop, rfl⟩

end

end MessageObject

open MessageObject in
/--
**Codec round trip.** For every schema and every content of its members: `count` and
`serialize` on a fresh object write an allocation of `MSG_LEN` bytes completely and
never past its end, the frame begins with `MSG_LEN`, and a fresh object of the same
class that deserialises the frame gets the name and all members back and stops at
`MSG_LEN` without having read further.
-/
theorem codec_round_trip (schema : Schema) (msgName name₀ : Bytes) (ms blank : List Member)
    (hKinds : ms.map Member.kind = schema.kinds) (hSame : blank.map Member.kind = schema.kinds)
    (hBlank : ∀ a ∈ blank, a.Blank) (hSize : wireLength msgName ms < 2 ^ 64) :
    ∃ frame sent received,
      (fresh msgName ms).count.serialize = some (frame.map some, sent) ∧
      frame.length = sent.msgLen ∧ sent.mCursor = sent.msgLen ∧
      sent.mData.length = sent.msgLen ∧
      8 ≤ frame.length ∧ decode (frame.take 8) = sent.msgLen ∧
      (fresh name₀ blank).deserialize frame = .ok received ∧
      received.msgName = msgName ∧ received.members = ms ∧ received.mCursor = sent.msgLen := by
  obtain ⟨received, hReceive, hName, hMembers, hCursor⟩ :=
    deserialize_wire schema hKinds hSame hBlank name₀ hSize
  refine ⟨wire msgName ms, _, received, serialize_fresh hSize (schema.lengths_lt hKinds hSize),
    wire_length msgName ms, wire_length msgName ms, ?_, ?_, wire_take hSize, hReceive, hName,
    hMembers, hCursor⟩
  · show ((wire msgName ms).map some ++ []).length = wireLength msgName ms
    rw [List.append_nil, List.length_map, wire_length]
  · rw [wire_length, wireLength]
    omega

/-- The members of `TestStringsMessage`: a `bool`, a vector of `size_t` and a vector of
strings. -/
def testStringsSchema : Schema where
  kinds := [.scalar 1, .vector 8, .strings]
  vector_width_pos := by
    intro w hw
    obtain rfl : w = 8 := by simpa using hw
    decide
  strings_last := by decide

/-- An empty string and a string with a zero byte among the values. -/
theorem codec_round_trip_testStrings :
    ∃ frame sent received,
      (MessageObject.fresh [84] [.scalar 1 1, .vector 8 [3, 4], .strings [[], [0, 255]]]).count.serialize =
        some (frame.map some, sent) ∧
      frame.length = sent.msgLen ∧ sent.mCursor = sent.msgLen ∧
      sent.mData.length = sent.msgLen ∧
      8 ≤ frame.length ∧ decode (frame.take 8) = sent.msgLen ∧
      (MessageObject.fresh [] [.scalar 1 1, .vector 8 [], .strings []]).deserialize frame =
        .ok received ∧
      received.msgName = [84] ∧
      received.members = [.scalar 1 1, .vector 8 [3, 4], .strings [[], [0, 255]]] ∧
      received.mCursor = sent.msgLen :=
  codec_round_trip testStringsSchema [84] []
    [.scalar 1 1, .vector 8 [3, 4], .strings [[], [0, 255]]] [.scalar 1 1, .vector 8 [], .strings []]
    (by decide) (by decide) (by simp [Member.Blank]) (by decide)

end WarringServer.Message
