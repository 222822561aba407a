import WarringServer.Message.Decode

/-!
# Message schemas and the wire format

The abstract side of the codec. A `Schema` is a member list the codec supports; the
restrictions in the comment of `BaseMessage.h` are its fields. `wire` is the format:
what a message looks like in a frame, stated without a cursor and without the
order of calls that produces it.

* `parse_image` — flat members are read back from their images under their own
  lengths, whatever follows in the table and in the data.
-/

namespace WarringServer.Message

open LittleEndian

/-- The static type of a member. -/
inductive MemberKind where
  | scalar (w : Nat)
  | string
  | vector (w : Nat)
  | strings
deriving Repr, DecidableEq

/-- A member list the codec supports: no empty scalar type, and at most one vector
of strings, which is last. -/
structure Schema where
  kinds : List MemberKind
  vector_width_pos : ∀ w, .vector w ∈ kinds → 0 < w
  strings_last : ∀ k ∈ kinds.dropLast, k ≠ .strings

namespace Member

def kind : Member → MemberKind
  | .scalar w _ => .scalar w
  | .string _ => .string
  | .vector w _ => .vector w
  | .strings _ => .strings

/-- What an object starts with: its vectors are empty. -/
def Blank : Member → Prop
  | .vector _ val => val = []
  | .strings strs => strs = []
  | _ => True

/-- The entries of the member in the table of lengths. -/
def lengths : Member → List Nat
  | .scalar _ _ => []
  | .string val => [val.length]
  | .vector _ val => [val.length]
  | .strings strs => strs.map List.length

/-- The bytes of the member in a frame. -/
def image : Member → Bytes
  | .scalar w val => encode w val.toNat
  | .string val => val
  | .vector w val => encodeMany w (val.map BitVec.toNat)
  | .strings strs => strs.flatten

end Member

/-- The entries of a member list in the table of lengths. -/
def lengths (ms : List Member) : List Nat := ms.flatMap Member.lengths

/-- The bytes of a member list in a frame. -/
def image (ms : List Member) : Bytes := ms.flatMap Member.image

@[simp] theorem lengths_nil : lengths [] = [] := rfl
@[simp] theorem lengths_cons (m : Member) (ms : List Member) :
    lengths (m :: ms) = m.lengths ++ lengths ms := rfl
@[simp] theorem image_nil : image [] = [] := rfl
@[simp] theorem image_cons (m : Member) (ms : List Member) :
    image (m :: ms) = m.image ++ image ms := rfl

/-- The table of lengths of a message. The name is a string of the object too. -/
def tableOf (msgName : Bytes) (ms : List Member) : List Nat := msgName.length :: lengths ms

/-- The size of a message in a frame. -/
def wireLength (msgName : Bytes) (ms : List Member) : Nat :=
  16 + 8 * (tableOf msgName ms).length + msgName.length + (image ms).length

/-- A message in a frame. -/
def wire (msgName : Bytes) (ms : List Member) : Bytes :=
  encode 8 (wireLength msgName ms) ++ encode 8 (tableOf msgName ms).length ++
    encodeMany 8 (tableOf msgName ms) ++ msgName ++ image ms

@[simp] theorem wire_length (msgName : Bytes) (ms : List Member) :
    (wire msgName ms).length = wireLength msgName ms := by
  simp only [wire, wireLength, List.length_append, encode_length, encodeMany_length]
  omega

-- ---------------------------------------------------------------------------
-- The parts of a frame
-- ---------------------------------------------------------------------------

section

variable {msgName : Bytes} {ms : List Member}

theorem tableOf_length_lt (h : wireLength msgName ms < 2 ^ 64) :
    (tableOf msgName ms).length < 256 ^ 8 := by
  have hPow : (256 : Nat) ^ 8 = 2 ^ 64 := by decide
  rw [wireLength] at h
  omega

theorem wire_take (h : wireLength msgName ms < 2 ^ 64) :
    decode ((wire msgName ms).take 8) = wireLength msgName ms := by
  have hPow : (256 : Nat) ^ 8 = 2 ^ 64 := by decide
  rw [wire, List.append_assoc, List.append_assoc, List.append_assoc,
    List.take_left' (encode_length 8 _), decode_encode_of_lt (by omega)]

theorem wire_drop_eight : (wire msgName ms).drop 8 =
    encode 8 (tableOf msgName ms).length ++
      (encodeMany 8 (tableOf msgName ms) ++ (msgName ++ image ms)) := by
  rw [wire, List.append_assoc, List.append_assoc, List.append_assoc,
    List.drop_left' (encode_length 8 _)]

theorem wire_drop_sixteen : (wire msgName ms).drop 16 =
    encodeMany 8 (tableOf msgName ms) ++ (msgName ++ image ms) := by
  rw [show 16 = 8 + 8 from rfl, ← List.drop_drop, wire_drop_eight,
    List.drop_left' (encode_length 8 _)]

theorem wireSize_wire (h : wireLength msgName ms < 2 ^ 64) :
    wireSize (wire msgName ms) = (tableOf msgName ms).length := by
  rw [wireSize, wire_drop_eight, List.take_left' (encode_length 8 _),
    decode_encode_of_lt (tableOf_length_lt h)]

theorem payload_wire (h : wireLength msgName ms < 2 ^ 64) :
    payload (wire msgName ms) = msgName ++ image ms := by
  rw [payload, wireSize_wire h, ← List.drop_drop, wire_drop_sixteen,
    List.drop_left' (by rw [encodeMany_length, Nat.mul_comm])]

/-- The table is read back as long as no length is cut off. -/
theorem wireTable_wire (h : wireLength msgName ms < 2 ^ 64)
    (hLens : ∀ n ∈ tableOf msgName ms, n < 2 ^ 64) :
    wireTable (wire msgName ms) = tableOf msgName ms := by
  have hPow : (256 : Nat) ^ 8 = 2 ^ 64 := by decide
  rw [wireTable, wireSize_wire h, wire_drop_sixteen,
    decodeMany_encodeMany fun n hn => by rw [hPow]; exact hLens n hn]

end

-- ---------------------------------------------------------------------------
-- Reading images back
-- ---------------------------------------------------------------------------

namespace Member

theorem lengths_length {m : Member} (h : m.Flat) : m.lengths.length = m.arity := by
  cases m with
  | scalar w val => rfl
  | string val => rfl
  | vector w val => rfl
  | strings strs => exact absurd h id

theorem flat_iff_kind {m : Member} : m.Flat ↔ m.kind ≠ .strings := by
  cases m <;> simp [Flat, kind]

theorem flat_of_kind {a m : Member} (hKind : a.kind = m.kind) (h : m.Flat) : a.Flat := by
  rw [flat_iff_kind, hKind, ← flat_iff_kind]
  exact h

theorem arity_of_kind {a m : Member} (hKind : a.kind = m.kind) : a.arity = m.arity := by
  cases a <;> cases m <;> simp_all [kind, arity]

/-- Every element of a `w`-byte vector fits `w` bytes. -/
theorem toNat_lt {w : Nat} (v : BitVec (8 * w)) : v.toNat < 256 ^ w := by
  have h := v.isLt
  rwa [Nat.pow_mul] at h

/-- A table entry of a member counts bytes of its image, or elements that take at
least one byte each. -/
theorem lengths_le {m : Member} (hWidth : ∀ w, m.kind = .vector w → 0 < w) {n : Nat}
    (hn : n ∈ m.lengths) : n ≤ m.image.length := by
  cases m with
  | scalar w val => exact absurd hn (List.not_mem_nil)
  | string val =>
    rw [List.mem_singleton.mp hn]
    exact Nat.le_refl _
  | vector w val =>
    rw [List.mem_singleton.mp hn]
    show val.length ≤ (encodeMany w (val.map BitVec.toNat)).length
    rw [encodeMany_length, List.length_map]
    exact Nat.le_mul_of_pos_right _ (hWidth w rfl)
  | strings strs =>
    obtain ⟨s, hs, rfl⟩ := List.mem_map.mp hn
    exact (List.sublist_flatten_of_mem hs).length_le

theorem need_image {a m : Member} (hKind : a.kind = m.kind) (hFlat : m.Flat)
    (lens : List Nat) : a.need ((m.lengths ++ lens).headD 0) = m.image.length := by
  cases m with
  | scalar w val =>
    cases a <;> simp_all [kind, need, image]
  | string val =>
    cases a <;> simp_all [kind, need, image, lengths]
  | vector w val =>
    cases a <;> simp_all [kind, need, image, lengths]
  | strings strs => exact absurd hFlat id

theorem parse_image {a m : Member} (hKind : a.kind = m.kind) (hBlank : a.Blank) (hFlat : m.Flat)
    (lens : List Nat) (rest : Bytes) :
    a.parse ((m.lengths ++ lens).headD 0) (m.image ++ rest) = m := by
  cases m with
  | scalar w val =>
    cases a with
    | scalar w' _ =>
      obtain rfl : w' = w := by simpa [kind] using hKind
      simp only [parse, image]
      rw [List.take_left' (encode_length w' _), decode_encode_of_lt (toNat_lt val),
        BitVec.ofNat_toNat, BitVec.setWidth_eq]
    | _ => exact absurd hKind (by simp [kind])
  | string val =>
    cases a with
    | string _ => simp [parse, image, lengths]
    | _ => exact absurd hKind (by simp [kind])
  | vector w val =>
    cases a with
    | vector w' val' =>
      -- a blank vector holds nothing that would stay in front
      obtain rfl : w' = w := by simpa [kind] using hKind
      obtain rfl : val' = [] := hBlank
      have hRead : decodeMany w' val.length (encodeMany w' (val.map BitVec.toNat) ++ rest) =
          val.map BitVec.toNat := by
        have hLt : ∀ n ∈ val.map BitVec.toNat, n < 256 ^ w' := by
          intro n hn
          obtain ⟨v, -, rfl⟩ := List.mem_map.mp hn
          exact toNat_lt v
        have h := decodeMany_encodeMany hLt rest
        rwa [List.length_map] at h
      simp only [parse, image, lengths, List.nil_append, List.singleton_append, List.headD_cons,
        hRead, List.map_map]
      congr 1
      conv_rhs => rw [← List.map_id val]
      exact List.map_congr_left fun v _ => by simp
    | _ => exact absurd hKind (by simp [kind])
  | strings strs => exact absurd hFlat id

end Member

section

variable {blank ms : List Member}

theorem arity_of_kinds (hKinds : blank.map Member.kind = ms.map Member.kind) :
    arity blank = arity ms := by
  induction ms generalizing blank with
  | nil => rw [List.map_eq_nil_iff.mp hKinds]
  | cons m ms ih =>
    obtain ⟨a, blank, rfl, hKind, hKinds⟩ := List.map_eq_cons_iff.mp hKinds
    rw [arity_cons, arity_cons, Member.arity_of_kind hKind, ih hKinds]

theorem flat_of_kinds (hKinds : blank.map Member.kind = ms.map Member.kind)
    (hFlat : ∀ m ∈ ms, m.Flat) : ∀ a ∈ blank, a.Flat := by
  intro a ha
  have hMem : a.kind ∈ ms.map Member.kind := hKinds ▸ List.mem_map_of_mem ha
  obtain ⟨m, hm, hKind⟩ := List.mem_map.mp hMem
  exact Member.flat_of_kind hKind.symm (hFlat m hm)

theorem lengths_length (hFlat : ∀ m ∈ ms, m.Flat) : (lengths ms).length = arity ms := by
  induction ms with
  | nil => rfl
  | cons m ms ih =>
    rw [lengths_cons, List.length_append, arity_cons, Member.lengths_length (hFlat m (by simp)),
      ih fun m hm => hFlat m (by simp [hm])]

/-- The member list is read back from its image, and nothing more is read. -/
theorem parse_image (hKinds : blank.map Member.kind = ms.map Member.kind)
    (hBlank : ∀ a ∈ blank, a.Blank) (hFlat : ∀ m ∈ ms, m.Flat) (lens : List Nat) (rest : Bytes) :
    layout blank (lengths ms ++ lens) = (image ms).length ∧
      parse blank (lengths ms ++ lens) (image ms ++ rest) = ms := by
  induction ms generalizing blank with
  | nil =>
    rw [List.map_eq_nil_iff.mp hKinds]
    exact ⟨rfl, rfl⟩
  | cons m ms ih =>
    obtain ⟨a, blank, rfl, hKind, hKinds⟩ := List.map_eq_cons_iff.mp hKinds
    have hm : m.Flat := hFlat m (by simp)
    obtain ⟨hLayout, hParse⟩ := ih hKinds (fun a ha => hBlank a (by simp [ha]))
      (fun m hm => hFlat m (by simp [hm]))
    have hNeed := Member.need_image hKind hm (lengths ms ++ lens)
    have hOne := Member.parse_image hKind (hBlank a (by simp)) hm (lengths ms ++ lens)
      (image ms ++ rest)
    -- `a` uses up just the entries of `m`
    have hDrop : (m.lengths ++ (lengths ms ++ lens)).drop a.arity = lengths ms ++ lens :=
      List.drop_left' (by rw [Member.lengths_length hm, Member.arity_of_kind hKind])
    simp only [lengths_cons, image_cons, List.append_assoc, layout, parse, hNeed, hOne, hDrop,
      hLayout, List.drop_left, hParse, List.length_append, true_and]

end

end WarringServer.Message
