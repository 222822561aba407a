import WarringServer.Message.Faults
import WarringServer.Message.RoundTrip

/-!
# Message classes and prototype objects

The classes of `CustomMessages.h`, `LoginMessage.h`, `GameMessage.h` and
`GatewayMessage.h` that a server registers, as member lists. They consist of scalars
and strings only (`Plain`), so what `parse` gives depends on the kinds of the members
and not on what they held before (`parse_eq_iff`).

A `Prototype` is an object of one of these classes. Its `deserialize` is the one of
`BaseMessage.lean`, with the fact that the static types of its members stay.
-/

namespace WarringServer.Message

/-- The characters of a string literal. -/
def literal (s : String) : Bytes := s.toList.map fun c => UInt8.ofNat c.toNat

def MSG_NAME_NONE : Bytes := literal "MSG_NAME_NONE"

-- ---------------------------------------------------------------------------
-- Plain members
-- ---------------------------------------------------------------------------

/-- A scalar or a string. -/
def MemberKind.Plain : MemberKind → Prop
  | .scalar _ | .string => True
  | .vector _ | .strings => False

instance : DecidablePred MemberKind.Plain := fun k => by
  cases k <;> unfold MemberKind.Plain <;> infer_instance

namespace Member

theorem flat_of_plain {m : Member} (h : m.kind.Plain) : m.Flat := by
  cases m with
  | strings strs => exact absurd h id
  | _ => exact trivial

theorem blank_of_plain {m : Member} (h : m.kind.Plain) : m.Blank := by
  cases m with
  | vector w val => exact absurd h id
  | strings strs => exact absurd h id
  | _ => exact trivial

/-- Members of one kind occupy the same number of bytes. -/
theorem need_of_kind {a a' : Member} (hKind : a.kind = a'.kind) (len : Nat) :
    a.need len = a'.need len := by
  cases a <;> cases a' <;> simp_all [kind, need]

/-- A plain member is read back the same under the same length; a string shows
its length. -/
theorem parse_eq_iff {a a' : Member} (hKind : a.kind = a'.kind) (hPlain : a.kind.Plain)
    {len len' : Nat} {bs : Bytes} (hLe : a.need len ≤ bs.length)
    (hLe' : a.need len' ≤ bs.length) :
    a.parse len bs = a'.parse len' bs ↔ (a.arity = 0 ∨ len = len') := by
  cases a with
  | scalar w val =>
    cases a' with
    | scalar w' val' =>
      obtain rfl : w = w' := by simpa [kind] using hKind
      exact ⟨fun _ => Or.inl rfl, fun _ => rfl⟩
    | _ => exact absurd hKind (by simp [kind])
  | string val =>
    cases a' with
    | string val' =>
      simp only [need] at hLe hLe'
      simp only [parse, arity, Member.string.injEq, Nat.one_ne_zero, false_or]
      constructor
      · -- neither length is cut off, so the strings show them
        intro hEq
        have hLen := congrArg List.length hEq
        rw [List.length_take, List.length_take] at hLen
        omega
      · rintro rfl
        rfl
    | _ => exact absurd hKind (by simp [kind])
  | vector w val => exact absurd hPlain id
  | strings strs => exact absurd hPlain id

end Member

section

variable {ms ms' : List Member}

theorem layout_of_kinds (hKinds : ms.map Member.kind = ms'.map Member.kind) (lens : List Nat) :
    layout ms lens = layout ms' lens := by
  induction ms generalizing ms' lens with
  | nil => rw [List.map_eq_nil_iff.mp hKinds.symm]
  | cons m ms ih =>
    obtain ⟨m', ms', rfl, hKind, hKinds⟩ := List.map_eq_cons_iff.mp hKinds.symm
    rw [layout, layout, Member.need_of_kind hKind.symm, Member.arity_of_kind hKind.symm,
      ih hKinds.symm]

/-- Reading a value does not change the static type of the member. -/
theorem parse_kinds (ms : List Member) (lens : List Nat) (bs : Bytes) :
    (parse ms lens bs).map Member.kind = ms.map Member.kind := by
  induction ms generalizing lens bs with
  | nil => rfl
  | cons m ms ih =>
    rw [parse, List.map_cons, List.map_cons, ih]
    cases m <;> rfl

/-- Only as many entries of the table count as the members have lengths. -/
theorem layout_take (lens : List Nat) :
    layout ms (lens.take (arity ms)) = layout ms lens := by
  induction ms generalizing lens with
  | nil => rfl
  | cons m ms ih =>
    have hDrop : (lens.take (arity (m :: ms))).drop m.arity =
        (lens.drop m.arity).take (arity ms) := by
      rw [List.drop_take, arity_cons, Nat.add_sub_cancel_left]
    have hNeed : m.need ((lens.take (arity (m :: ms))).headD 0) = m.need (lens.headD 0) := by
      cases m with
      | scalar w val => rfl
      | strings strs => rfl
      | _ => cases lens <;> simp [Member.need, Member.arity, Nat.add_comm 1]
    rw [layout, layout, hNeed, hDrop, ih]

/-- **The values show the lengths.** Plain members read off the same bytes under two
tables are equal exactly if the tables agree on the entries they use. -/
theorem parse_eq_iff (hKinds : ms.map Member.kind = ms'.map Member.kind)
    (hPlain : ∀ m ∈ ms, m.kind.Plain) {lens lens' : List Nat} {bs : Bytes}
    (hEntries : arity ms ≤ lens.length) (hEntries' : arity ms ≤ lens'.length)
    (hFits : layout ms lens ≤ bs.length) (hFits' : layout ms lens' ≤ bs.length) :
    parse ms lens bs = parse ms' lens' bs ↔ lens.take (arity ms) = lens'.take (arity ms) := by
  induction ms generalizing ms' lens lens' bs with
  | nil =>
    rw [List.map_eq_nil_iff.mp hKinds.symm]
    exact ⟨fun _ => rfl, fun _ => rfl⟩
  | cons m ms ih =>
    obtain ⟨m', ms', rfl, hKind, hTail⟩ := List.map_eq_cons_iff.mp hKinds.symm
    have hm : m.kind.Plain := hPlain m (by simp)
    have hms : ∀ m ∈ ms, m.kind.Plain := fun m hm => hPlain m (by simp [hm])
    rw [arity_cons] at hEntries hEntries'
    rw [layout] at hFits hFits'
    have hHead := Member.parse_eq_iff hKind.symm hm
      (Nat.le_trans (Nat.le_add_right _ _) hFits) (Nat.le_trans (Nat.le_add_right _ _) hFits')
    rw [parse, parse, List.cons.injEq, hHead, Member.arity_of_kind hKind,
      Member.need_of_kind hKind (lens'.headD 0)]
    cases m with
    | scalar w val =>
      -- no entry of its own
      simp only [Member.arity, true_or, true_and, Member.need, List.drop_zero, arity_cons,
        Nat.zero_add] at hEntries hEntries' hFits hFits' ⊢
      refine ih hTail.symm hms hEntries hEntries' ?_ ?_
      · rw [List.length_drop]
        omega
      · rw [List.length_drop]
        omega
    | string val =>
      simp only [Member.arity, Member.need, arity_cons] at hEntries hEntries' hFits hFits' ⊢
      cases lens with
      | nil => exact absurd hEntries (by simp)
      | cons len lens =>
        cases lens' with
        | nil => exact absurd hEntries' (by simp)
        | cons len' lens' =>
          simp only [List.headD_cons, List.drop_one, List.tail_cons, List.length_cons,
            Nat.one_ne_zero, false_or, Nat.add_comm 1, List.take_succ_cons,
            List.cons.injEq] at hEntries hEntries' hFits hFits' ⊢
          -- under equal first entries the rest of both lists begins at the same byte
          refine and_congr_right ?_
          rintro rfl
          refine ih hTail.symm hms (by omega) (by omega) ?_ ?_
          · rw [List.length_drop]
            omega
          · rw [List.length_drop]
            omega
    | vector w val => exact absurd hm id
    | strings strs => exact absurd hm id

end

-- ---------------------------------------------------------------------------
-- Classes
-- ---------------------------------------------------------------------------

/-- The classes a server registers. -/
inductive MessageType where
  | timestampMessage
  | heartBeatPacket
  | loginRequestMessage
  | loginCharacterRequestMessage
  | dsMessage
  | dsLoadOrUploadCharacterMessage
  | enterGameRequestMessage
deriving Repr, DecidableEq

namespace MessageType

/-- The members each class passes to `countCapacity`, `pushMembers` and
`popMembers`. -/
def kinds : MessageType → List MemberKind
  -- MILLISECONDS_SINCE_EPOCH
  | timestampMessage => [.scalar 8]
  -- inherited from `TimestampMessage`
  | heartBeatPacket => [.scalar 8]
  -- REQUEST_CODE, ACCOUNT, PASSWORD
  | loginRequestMessage => [.scalar 8, .string, .string]
  -- REQUEST_CODE, ACCOUNT, PASSWORD, CHARACTER_NAME, CHARACTER_GENDER,
  -- CHARACTER_OCCUPTION, CHARACTER_STATE
  | loginCharacterRequestMessage =>
    [.scalar 8, .string, .string, .string, .scalar 1, .scalar 4, .scalar 4]
  -- CODE, DS_PORT, SCENE_ID, LOAD, SCENE_DATA
  | dsMessage => [.scalar 8, .scalar 4, .scalar 4, .scalar 4, .string]
  -- CODE, SCENE_ID, ACCOUNT, CHARACTER_NAME, CHARACTER_DATA
  | dsLoadOrUploadCharacterMessage => [.scalar 8, .scalar 4, .string, .string, .string]
  -- REQUEST_CODE, ACCOUNT, CHARACTER
  | enterGameRequestMessage => [.scalar 8, .string, .string]

theorem kinds_plain (type : MessageType) : ∀ k ∈ type.kinds, k.Plain := by
  cases type <;> decide

/-- Every class begins with a scalar of 8 bytes. -/
theorem kinds_head (type : MessageType) : ∃ rest, type.kinds = .scalar 8 :: rest := by
  cases type <;> exact ⟨_, rfl⟩

/-- The strings of a class, `MSG_NAME` included. -/
def stringCount (type : MessageType) : Nat := 1 + (type.kinds.filter (· = .string)).length

/-- A class as a schema of the codec. -/
def schema (type : MessageType) : Schema where
  kinds := type.kinds
  vector_width_pos := by
    intro w hw
    exact absurd (type.kinds_plain _ hw) id
  strings_last := by
    rintro k hk rfl
    exact absurd (type.kinds_plain _ (List.dropLast_subset _ hk)) id

end MessageType

/-- A member as `make_unique<MESSAGE>()` leaves it. -/
def MemberKind.initial : MemberKind → Member
  | .scalar w => .scalar w 0
  | .string => .string []
  | .vector w => .vector w []
  | .strings => .strings []

theorem MemberKind.initial_kind (k : MemberKind) : k.initial.kind = k := by
  cases k <;> rfl

-- ---------------------------------------------------------------------------
-- Prototypes
-- ---------------------------------------------------------------------------

/-- The object held for a registered class. -/
structure Prototype where
  type : MessageType
  object : MessageObject
  typed : object.members.map Member.kind = type.kinds

namespace Prototype

/-- `std::make_unique<MESSAGE>()` -/
def make (type : MessageType) : Prototype where
  type := type
  object := .fresh MSG_NAME_NONE (type.kinds.map MemberKind.initial)
  typed := by
    show (type.kinds.map MemberKind.initial).map Member.kind = type.kinds
    rw [List.map_map]
    conv_rhs => rw [← List.map_id type.kinds]
    exact List.map_congr_left fun k _ => k.initial_kind

theorem plain (p : Prototype) : ∀ m ∈ p.object.members, m.kind.Plain := by
  intro m hm
  refine p.type.kinds_plain m.kind ?_
  rw [← p.typed]
  exact List.mem_map_of_mem hm

/-- The table entries the members of a class use. -/
theorem arity_members (p : Prototype) : 1 + arity p.object.members = p.type.stringCount := by
  rw [MessageType.stringCount, ← p.typed]
  have hPlain := p.plain
  generalize p.object.members = ms at hPlain
  induction ms with
  | nil => rfl
  | cons m ms ih =>
    have hm : m.kind.Plain := hPlain m (by simp)
    have hRest := ih fun m hm => hPlain m (by simp [hm])
    rw [arity_cons, List.map_cons, List.filter_cons]
    cases m with
    | scalar w val =>
      simp only [Member.arity, Member.kind, reduceCtorEq, decide_false, Bool.false_eq_true,
        if_false]
      omega
    | string val =>
      simp only [Member.arity, Member.kind, decide_true, if_true, List.length_cons]
      omega
    | vector w val => exact absurd hm id
    | strings strs => exact absurd hm id

theorem flat (p : Prototype) : ∀ m ∈ p.object.members, m.Flat :=
  fun m hm => Member.flat_of_plain (p.plain m hm)

/-- The object with the values it reads off a frame that is long enough. -/
def decoded (data : Bytes) (p : Prototype) : Prototype where
  type := p.type
  object := p.object.decoded data
  typed := by
    show (parse p.object.members _ _).map Member.kind = p.type.kinds
    rw [parse_kinds, p.typed]

theorem decoded_of_ok {data : Bytes} {p : Prototype} {object : MessageObject}
    (h : p.object.deserialize data = .ok object) : object = (p.decoded data).object :=
  ((MessageObject.deserialize_eq_ok p.flat).mp h).2

/-- The virtual `deserialize` of the object. -/
def deserialize (data : Bytes) (p : Prototype) : Except DecodeFault Prototype :=
  match h : p.object.deserialize data with
  | .ok object => .ok ⟨p.type, object, by rw [decoded_of_ok h]; exact (p.decoded data).typed⟩
  | .error fault => .error fault

theorem deserialize_eq_ok {data : Bytes} {p r : Prototype} :
    p.deserialize data = .ok r ↔ p.object.FitsFrame data ∧ r = p.decoded data := by
  have hSpec := fun o => @MessageObject.deserialize_eq_ok data p.object o p.flat
  unfold deserialize
  split
  · rename_i object hOk
    obtain ⟨hFits, hObject⟩ := (hSpec object).mp hOk
    have hSame : (⟨p.type, object, by rw [hObject]; exact (p.decoded data).typed⟩ : Prototype) =
        p.decoded data := by
      simp only [decoded, hObject]
    rw [hSame]
    exact ⟨fun h => ⟨hFits, (Except.ok.inj h).symm⟩, fun h => by rw [h.2]⟩
  · rename_i fault hError
    constructor
    · intro h
      cases h
    · rintro ⟨hFits, -⟩
      have hOk := (hSpec _).mpr ⟨hFits, rfl⟩
      rw [hError] at hOk
      cases hOk

/-- The failures of the virtual function are those of the object. -/
theorem spared_deserialize {obtains : Nat → Bool} {data : Bytes} {p : Prototype} :
    Spared obtains (p.deserialize data) ↔ p.object.Decodable obtains data := by
  rw [← MessageObject.spared_deserialize p.flat]
  unfold deserialize
  split
  · rename_i object hOk
    exact iff_of_true spared_ok fun fault hError => nomatch hOk.symm.trans hError
  · rename_i fault hError
    rw [hError, spared_error, spared_error]

end Prototype

end WarringServer.Message
