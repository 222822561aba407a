import WarringServer.Message.BaseMessage
import Mathlib.Data.List.TakeDrop

/-!
# When `deserialize` completes, and with what

For members that are scalars, strings and vectors of scalars (`Flat`), the layout of
a frame is a function of the table of lengths: `layout` is the number of bytes the
members occupy, `parse` the values they get. Both are stated over the part of
the table from `mArrayLikeIndex` on and the data from `mCursor` on.

Each `pop` function has one lemma: it completes exactly if the table and the data
are long enough, and then with the result given. They add up to the main result:

* `deserialize_eq_ok` — `deserialize` completes on a frame exactly if
  `FitsFrame`, and leaves the object `decoded`.
-/

namespace WarringServer.Message

open LittleEndian

theorem bind_eq_ok {ε α β : Type} {x : Except ε α} {f : α → Except ε β} {r : β} :
    (x >>= f) = .ok r ↔ ∃ a, x = .ok a ∧ f a = .ok r := by
  cases x with
  | error e =>
    constructor
    · intro h
      cases h
    · rintro ⟨a, h, -⟩
      cases h
  | ok a =>
    constructor
    · intro h
      exact ⟨a, rfl, h⟩
    · rintro ⟨a', h, hf⟩
      rw [Except.ok.inj h]
      exact hf

theorem pure_eq_ok {ε α : Type} {a r : α} : (pure a : Except ε α) = .ok r ↔ r = a :=
  ⟨fun h => (Except.ok.inj h).symm, fun h => h ▸ rfl⟩

-- ---------------------------------------------------------------------------
-- Layout
-- ---------------------------------------------------------------------------

namespace Member

/-- Not a vector of strings. -/
def Flat : Member → Prop
  | .strings _ => False
  | _ => True

instance : DecidablePred Flat := fun m => by
  cases m <;> unfold Flat <;> infer_instance

/-- Entries of the table of lengths the member uses. -/
def arity : Member → Nat
  | .string _ | .vector _ _ => 1
  | .scalar _ _ | .strings _ => 0

/-- Bytes the member occupies when its table entry is `len`. -/
def need (len : Nat) : Member → Nat
  | .scalar w _ => w
  | .string _ => len
  | .vector w _ => len * w
  | .strings _ => 0

/-- The member after it was read off the front of `bs`. A vector keeps what it
had. -/
def parse (len : Nat) (bs : Bytes) : Member → Member
  | .scalar w _ => .scalar w (.ofNat _ (decode (bs.take w)))
  | .string _ => .string (bs.take len)
  | .vector w val => .vector w (val ++ (decodeMany w len bs).map (.ofNat _))
  | .strings strs => .strings strs

end Member

/-- Table entries a member list uses. -/
def arity (ms : List Member) : Nat := (ms.map Member.arity).sum

/-- Bytes a member list occupies under a table of lengths. -/
def layout : List Member → List Nat → Nat
  | [], _ => 0
  | m :: ms, lens => m.need (lens.headD 0) + layout ms (lens.drop m.arity)

/-- The members read off the front of `bs` under a table of lengths. -/
def parse : List Member → List Nat → Bytes → List Member
  | [], _, _ => []
  | m :: ms, lens, bs =>
    m.parse (lens.headD 0) bs ::
      parse ms (lens.drop m.arity) (bs.drop (m.need (lens.headD 0)))

@[simp] theorem arity_nil : arity [] = 0 := rfl

@[simp] theorem arity_cons (m : Member) (ms : List Member) :
    arity (m :: ms) = m.arity + arity ms := rfl

-- ---------------------------------------------------------------------------
-- The `pop` functions
-- ---------------------------------------------------------------------------

theorem readBytes_eq_ok {data raw : Bytes} {cursor n : Nat} :
    readBytes data cursor n = .ok raw ↔
      cursor + n ≤ data.length ∧ raw = (data.drop cursor).take n := by
  unfold readBytes
  split
  · rename_i hIn
    exact ⟨fun h => ⟨hIn, (Except.ok.inj h).symm⟩, fun h => by rw [h.2]⟩
  · rename_i hOut
    exact ⟨fun h => (nomatch h), fun h => absurd h.1 hOut⟩

theorem readString_eq_ok {data raw : Bytes} {cursor len : Nat} :
    readString data cursor len = .ok raw ↔
      cursor + len ≤ data.length ∧ raw = (data.drop cursor).take len := by
  unfold readString
  split
  · rename_i hIn
    exact ⟨fun h => ⟨hIn, (Except.ok.inj h).symm⟩, fun h => by rw [h.2]⟩
  · rename_i hOut
    exact ⟨fun h => (nomatch h), fun h => absurd h.1 hOut⟩

namespace BaseMessage

/-- The reading position moved on by `k` table entries and `n` bytes. -/
def advance (b : BaseMessage) (k n : Nat) : BaseMessage :=
  { b with mArrayLikeIndex := b.mArrayLikeIndex + k, mCursor := b.mCursor + n }

/-- The part of the table that is still to be used. -/
def pending (b : BaseMessage) : List Nat := b.arrayLikeLenghts.drop b.mArrayLikeIndex

@[simp] theorem advance_mCursor (b : BaseMessage) (k n : Nat) :
    (b.advance k n).mCursor = b.mCursor + n := rfl

@[simp] theorem advance_mArrayLikeIndex (b : BaseMessage) (k n : Nat) :
    (b.advance k n).mArrayLikeIndex = b.mArrayLikeIndex + k := rfl

@[simp] theorem advance_arrayLikeLenghts (b : BaseMessage) (k n : Nat) :
    (b.advance k n).arrayLikeLenghts = b.arrayLikeLenghts := rfl

@[simp] theorem advance_pending (b : BaseMessage) (k n : Nat) :
    (b.advance k n).pending = b.pending.drop k := by
  rw [pending, pending, List.drop_drop]
  rfl

theorem advance_zero (b : BaseMessage) : b.advance 0 0 = b := rfl

theorem advance_advance (b : BaseMessage) (k n k' n' : Nat) :
    (b.advance k n).advance k' n' = b.advance (k + k') (n + n') := by
  simp [advance, Nat.add_assoc]

theorem lengthAt_eq_ok {b : BaseMessage} {i len : Nat} :
    b.lengthAt i = .ok len ↔
      i < b.arrayLikeLenghts.length ∧ len = (b.arrayLikeLenghts.drop i).headD 0 := by
  unfold lengthAt
  split
  · rename_i hIn
    have hHead : (b.arrayLikeLenghts.drop i).headD 0 = b.arrayLikeLenghts[i] := by
      rw [List.drop_eq_getElem_cons hIn]
      rfl
    rw [hHead]
    exact ⟨fun h => ⟨hIn, (Except.ok.inj h).symm⟩, fun h => by rw [h.2]⟩
  · rename_i hOut
    exact ⟨fun h => (nomatch h), fun h => absurd h.1 hOut⟩

theorem popScalar_eq_ok {data : Bytes} {b : BaseMessage} {w : Nat}
    {r : BitVec (8 * w) × BaseMessage} :
    b.popScalar data w = .ok r ↔ b.mCursor + w ≤ data.length ∧
      r = (.ofNat _ (decode ((data.drop b.mCursor).take w)), b.advance 0 w) := by
  simp only [popScalar, bind_eq_ok, readBytes_eq_ok, pure_eq_ok]
  constructor
  · rintro ⟨raw, ⟨hIn, rfl⟩, rfl⟩
    exact ⟨hIn, rfl⟩
  · rintro ⟨hIn, rfl⟩
    exact ⟨_, ⟨hIn, rfl⟩, rfl⟩

theorem popString_eq_ok {data : Bytes} {b : BaseMessage} {r : Bytes × BaseMessage} :
    b.popString data = .ok r ↔ b.mArrayLikeIndex < b.arrayLikeLenghts.length ∧
      b.mCursor + b.pending.headD 0 ≤ data.length ∧
      r = ((data.drop b.mCursor).take (b.pending.headD 0), b.advance 1 (b.pending.headD 0)) := by
  simp only [popString, bind_eq_ok, lengthAt_eq_ok, readString_eq_ok, pure_eq_ok]
  constructor
  · rintro ⟨len, ⟨hEntry, rfl⟩, raw, ⟨hIn, rfl⟩, rfl⟩
    exact ⟨hEntry, hIn, rfl⟩
  · rintro ⟨hEntry, hIn, rfl⟩
    exact ⟨_, ⟨hEntry, rfl⟩, _, ⟨hIn, rfl⟩, rfl⟩

/-- The loop over a vector reads an array of integers. -/
theorem popScalars_eq_ok {data : Bytes} {w n : Nat} {b : BaseMessage}
    {val : List (BitVec (8 * w))} {r : List (BitVec (8 * w)) × BaseMessage}
    (hCursor : b.mCursor ≤ data.length) :
    popScalars data w n b val = .ok r ↔ b.mCursor + n * w ≤ data.length ∧
      r = (val ++ (decodeMany w n (data.drop b.mCursor)).map (.ofNat _),
        b.advance 0 (n * w)) := by
  induction n generalizing b val with
  | zero =>
    simp only [popScalars, pure_eq_ok, Nat.zero_mul, Nat.add_zero, decodeMany, List.map_nil,
      List.append_nil, advance_zero, hCursor, true_and]
  | succ n ih =>
    have hMul : (n + 1) * w = w + n * w := by rw [Nat.succ_mul, Nat.add_comm]
    simp only [popScalars, bind_eq_ok, popScalar_eq_ok]
    constructor
    · rintro ⟨_, ⟨hIn, rfl⟩, hRest⟩
      -- the loop goes on one element further
      obtain ⟨hAll, rfl⟩ := (ih (b := b.advance 0 w) hIn).mp hRest
      rw [advance_mCursor] at hAll
      refine ⟨by omega, ?_⟩
      rw [advance_advance, advance_mCursor, decodeMany, List.map_cons, List.append_assoc,
        List.drop_drop, hMul]
      rfl
    · rintro ⟨hAll, rfl⟩
      have hIn : b.mCursor + w ≤ data.length := by omega
      refine ⟨_, ⟨hIn, rfl⟩, (ih (b := b.advance 0 w) hIn).mpr ⟨?_, ?_⟩⟩
      · rw [advance_mCursor]
        omega
      · rw [advance_advance, advance_mCursor, decodeMany, List.map_cons, List.append_assoc,
          List.drop_drop, hMul]
        rfl

theorem popMember_eq_ok {data : Bytes} {b : BaseMessage} {m : Member} {r : Member × BaseMessage}
    (hFlat : m.Flat) (hCursor : b.mCursor ≤ data.length)
    (hIndex : b.mArrayLikeIndex ≤ b.arrayLikeLenghts.length) :
    b.popMember data m = .ok r ↔
      b.mArrayLikeIndex + m.arity ≤ b.arrayLikeLenghts.length ∧
      b.mCursor + m.need (b.pending.headD 0) ≤ data.length ∧
      r = (m.parse (b.pending.headD 0) (data.drop b.mCursor),
        b.advance m.arity (m.need (b.pending.headD 0))) := by
  cases m with
  | scalar w val =>
    simp only [popMember, bind_eq_ok, popScalar_eq_ok, pure_eq_ok, Member.arity, Member.need,
      Member.parse, Nat.add_zero, hIndex, true_and]
    constructor
    · rintro ⟨_, ⟨hIn, rfl⟩, rfl⟩
      exact ⟨hIn, rfl⟩
    · rintro ⟨hIn, rfl⟩
      exact ⟨_, ⟨hIn, rfl⟩, rfl⟩
  | string val =>
    simp only [popMember, bind_eq_ok, popString_eq_ok, pure_eq_ok, Member.arity, Member.need,
      Member.parse, Nat.succ_le_iff]
    constructor
    · rintro ⟨_, ⟨hEntry, hIn, rfl⟩, rfl⟩
      exact ⟨hEntry, hIn, rfl⟩
    · rintro ⟨hEntry, hIn, rfl⟩
      exact ⟨_, ⟨hEntry, hIn, rfl⟩, rfl⟩
  | vector w val =>
    simp only [popMember, bind_eq_ok, lengthAt_eq_ok, pure_eq_ok, Member.arity, Member.need,
      Member.parse, Nat.succ_le_iff]
    constructor
    · -- the entry is used before the loop starts
      rintro ⟨len, ⟨hEntry, rfl⟩, _, hLoop, rfl⟩
      obtain ⟨hIn, rfl⟩ := (popScalars_eq_ok (b := b.advance 1 0) hCursor).mp hLoop
      refine ⟨hEntry, hIn, ?_⟩
      rw [advance_advance, Nat.zero_add]
      rfl
    · rintro ⟨hEntry, hIn, rfl⟩
      refine ⟨_, ⟨hEntry, rfl⟩, _,
        (popScalars_eq_ok (b := b.advance 1 0) hCursor).mpr ⟨hIn, rfl⟩, ?_⟩
      rw [advance_advance, Nat.zero_add]
      rfl
  | strings strs => exact absurd hFlat id

theorem popMembers_eq_ok {data : Bytes} {ms : List Member} {b : BaseMessage}
    {r : List Member × BaseMessage} (hFlat : ∀ m ∈ ms, m.Flat)
    (hCursor : b.mCursor ≤ data.length)
    (hIndex : b.mArrayLikeIndex ≤ b.arrayLikeLenghts.length) :
    b.popMembers data ms = .ok r ↔
      b.mArrayLikeIndex + arity ms ≤ b.arrayLikeLenghts.length ∧
      b.mCursor + layout ms b.pending ≤ data.length ∧
      r = (parse ms b.pending (data.drop b.mCursor),
        b.advance (arity ms) (layout ms b.pending)) := by
  induction ms generalizing b r with
  | nil =>
    simp only [popMembers, pure_eq_ok, arity_nil, layout, parse, Nat.add_zero, hCursor, hIndex,
      true_and, advance_zero]
  | cons m ms ih =>
    have hm : m.Flat := hFlat m (by simp)
    have hms : ∀ m ∈ ms, m.Flat := fun m hm => hFlat m (by simp [hm])
    simp only [popMembers, bind_eq_ok, popMember_eq_ok hm hCursor hIndex, pure_eq_ok]
    -- after `m` the lemma applies to `ms`, further on in the table and the data
    constructor
    · rintro ⟨_, ⟨hEntry, hIn, rfl⟩, _, hRest, rfl⟩
      obtain ⟨hEntries, hAll, rfl⟩ :=
        (ih (b := b.advance m.arity (m.need (b.pending.headD 0))) hms hIn hEntry).mp hRest
      simp only [advance_mArrayLikeIndex, advance_arrayLikeLenghts, advance_mCursor,
        advance_pending] at hEntries hAll
      refine ⟨by rw [arity_cons]; omega, by rw [layout]; omega, ?_⟩
      rw [advance_advance, advance_mCursor, advance_pending, parse, List.drop_drop]
      rfl
    · rintro ⟨hEntries, hAll, rfl⟩
      rw [arity_cons] at hEntries
      rw [layout] at hAll
      have hEntry : b.mArrayLikeIndex + m.arity ≤ b.arrayLikeLenghts.length := by omega
      have hIn : b.mCursor + m.need (b.pending.headD 0) ≤ data.length := by omega
      refine ⟨_, ⟨hEntry, hIn, rfl⟩, _,
        (ih (b := b.advance m.arity (m.need (b.pending.headD 0))) hms hIn hEntry).mpr
          ⟨?_, ?_, rfl⟩, ?_⟩
      · simp only [advance_mArrayLikeIndex, advance_arrayLikeLenghts]
        omega
      · simp only [advance_mCursor, advance_pending]
        omega
      · rw [advance_advance, advance_mCursor, advance_pending, parse, List.drop_drop]
        rfl

/-- A `w`-byte read loses no bits. -/
theorem toNat_ofNat_decode {w : Nat} {raw : Bytes} (h : raw.length ≤ w) :
    (BitVec.ofNat (8 * w) (decode raw)).toNat = decode raw := by
  have hLt : decode raw < 2 ^ (8 * w) := by
    calc decode raw < 256 ^ raw.length := decode_lt raw
      _ ≤ 256 ^ w := Nat.pow_le_pow_right (by decide) h
      _ = 2 ^ (8 * w) := by rw [Nat.pow_mul]
  rw [BitVec.toNat_ofNat, Nat.mod_eq_of_lt hLt]

/-- `n` entries read into the table. -/
def filled (data : Bytes) (n : Nat) (b : BaseMessage) : BaseMessage :=
  { b with
    arrayLikeLenghts := b.arrayLikeLenghts ++ decodeMany 8 n (data.drop b.mCursor)
    mCursor := b.mCursor + 8 * n }

theorem filled_succ (data : Bytes) (n : Nat) (b : BaseMessage) :
    (b.filled data 1).filled data n = b.filled data (n + 1) := by
  have hMul : b.mCursor + 8 + 8 * n = b.mCursor + 8 * (n + 1) := by omega
  simp only [filled, decodeMany, List.append_assoc, List.singleton_append, Nat.mul_one,
    List.drop_drop, hMul]

theorem fillArrayLike_succ_eq_ok {data : Bytes} {n : Nat} {b r : BaseMessage} :
    fillArrayLike data (n + 1) b = .ok r ↔
      b.mCursor + 8 ≤ data.length ∧ fillArrayLike data n (b.filled data 1) = .ok r := by
  -- an entry goes through a `size_t` without loss
  have hBits : (BitVec.ofNat (8 * 8) (decode ((data.drop b.mCursor).take 8))).toNat =
      decode ((data.drop b.mCursor).take 8) := by
    refine toNat_ofNat_decode ?_
    rw [List.length_take]
    omega
  simp only [fillArrayLike, bind_eq_ok, popScalar_eq_ok]
  constructor
  · rintro ⟨_, ⟨hIn, rfl⟩, hRest⟩
    dsimp only at hRest
    rw [hBits] at hRest
    exact ⟨hIn, hRest⟩
  · rintro ⟨hIn, hRest⟩
    refine ⟨_, ⟨hIn, rfl⟩, ?_⟩
    dsimp only
    rw [hBits]
    exact hRest

/-- `fillArrayLike` appends an array of `size_t` to the table. -/
theorem fillArrayLike_eq_ok {data : Bytes} {n : Nat} {b r : BaseMessage}
    (hCursor : b.mCursor ≤ data.length) :
    fillArrayLike data n b = .ok r ↔
      b.mCursor + 8 * n ≤ data.length ∧ r = b.filled data n := by
  induction n generalizing b with
  | zero =>
    simp only [fillArrayLike, pure_eq_ok, filled, Nat.mul_zero, Nat.add_zero, decodeMany,
      List.append_nil, hCursor, true_and]
  | succ n ih =>
    rw [fillArrayLike_succ_eq_ok, ← filled_succ data n b]
    have hOne : (b.filled data 1).mCursor = b.mCursor + 8 := rfl
    constructor
    · rintro ⟨hIn, hRest⟩
      obtain ⟨hAll, rfl⟩ := (ih (by rw [hOne]; exact hIn)).mp hRest
      rw [hOne] at hAll
      exact ⟨by omega, rfl⟩
    · rintro ⟨hAll, rfl⟩
      have hIn : b.mCursor + 8 ≤ data.length := by omega
      refine ⟨hIn, (ih (by rw [hOne]; exact hIn)).mpr ⟨?_, rfl⟩⟩
      rw [hOne]
      omega

end BaseMessage

-- ---------------------------------------------------------------------------
-- Frames
-- ---------------------------------------------------------------------------

/-! A frame holds `MSG_LEN`, `ARRAY_LIKE_S_SIZE` and so many table entries; the rest is
`MSG_NAME` and the members. -/

def wireSize (data : Bytes) : Nat := decode ((data.drop 8).take 8)

def wireTable (data : Bytes) : List Nat := decodeMany 8 (wireSize data) (data.drop 16)

def payload (data : Bytes) : Bytes := data.drop (16 + 8 * wireSize data)

namespace MessageObject

/-- The part of the table `deserialize` uses: what earlier calls have left, and
behind it the frame's own table. -/
def table (data : Bytes) (m : MessageObject) : List Nat :=
  (m.arrayLikeLenghts ++ wireTable data).drop m.mArrayLikeIndex

/-- The frame is long enough for `deserialize`: it holds its own table, which
completes the one used so far to one entry for the name and one for each string
and vector, and the bytes these entries ask for. -/
structure FitsFrame (data : Bytes) (m : MessageObject) : Prop where
  table_fits : 16 + 8 * wireSize data ≤ data.length
  entries_suffice :
    m.mArrayLikeIndex + 1 + arity m.members ≤ m.arrayLikeLenghts.length + wireSize data
  payload_fits : 16 + 8 * wireSize data + (m.table data).headD 0 +
    layout m.members ((m.table data).drop 1) ≤ data.length

instance (data : Bytes) (m : MessageObject) : Decidable (m.FitsFrame data) :=
  decidable_of_iff (16 + 8 * wireSize data ≤ data.length ∧
      m.mArrayLikeIndex + 1 + arity m.members ≤ m.arrayLikeLenghts.length + wireSize data ∧
      16 + 8 * wireSize data + (m.table data).headD 0 +
        layout m.members ((m.table data).drop 1) ≤ data.length)
    ⟨fun h => ⟨h.1, h.2.1, h.2.2⟩, fun h => ⟨h.1, h.2, h.3⟩⟩

/-- What `deserialize` makes of the object. -/
def decoded (data : Bytes) (m : MessageObject) : MessageObject where
  msgName := (payload data).take ((m.table data).headD 0)
  msgLen := decode (data.take 8)
  mData := m.mData
  arrayLikeLenghts := m.arrayLikeLenghts ++ wireTable data
  arrayLikeSSize := wireSize data
  mArrayLikeIndex := m.mArrayLikeIndex + 1 + arity m.members
  mCursor := 16 + 8 * wireSize data + (m.table data).headD 0 +
    layout m.members ((m.table data).drop 1)
  members := parse m.members ((m.table data).drop 1)
    ((payload data).drop ((m.table data).headD 0))

/-- The object after `deserializeHelper`. -/
def helped (data : Bytes) (m : MessageObject) : BaseMessage where
  msgName := (payload data).take ((m.table data).headD 0)
  msgLen := decode (data.take 8)
  mData := m.mData
  arrayLikeLenghts := m.arrayLikeLenghts ++ wireTable data
  arrayLikeSSize := wireSize data
  mArrayLikeIndex := m.mArrayLikeIndex + 1
  mCursor := 16 + 8 * wireSize data + (m.table data).headD 0

/-- The object after the two header fields were read. -/
def headed (data : Bytes) (m : MessageObject) : BaseMessage :=
  { m.toBaseMessage with
    msgLen := decode (data.take 8)
    arrayLikeSSize := wireSize data
    mCursor := 16 }

theorem deserializeHelper_headed {data : Bytes} {m : MessageObject} {r : BaseMessage} :
    m.toBaseMessage.deserializeHelper data = .ok r ↔ 16 ≤ data.length ∧
      ∃ b, BaseMessage.fillArrayLike data (wireSize data) (m.headed data) = .ok b ∧
        ∃ s, b.popString data = .ok s ∧ r = { s.2 with msgName := s.1 } := by
  have hLen : (BitVec.ofNat (8 * 8) (decode ((data.drop 0).take 8))).toNat =
      decode (data.take 8) :=
    BaseMessage.toNat_ofNat_decode (by rw [List.length_take]; omega)
  have hSize : (BitVec.ofNat (8 * 8) (decode ((data.drop (0 + 8)).take 8))).toNat =
      wireSize data :=
    BaseMessage.toNat_ofNat_decode (by rw [List.length_take]; omega)
  simp only [BaseMessage.deserializeHelper, bind_eq_ok, BaseMessage.popScalar_eq_ok, pure_eq_ok]
  constructor
  · -- 16 bytes for both fields include the 8 of the first
    rintro ⟨_, ⟨-, rfl⟩, _, ⟨hIn, rfl⟩, b, hFill, hName⟩
    refine ⟨hIn, b, ?_, hName⟩
    simp only [BaseMessage.advance, hLen, hSize] at hFill
    exact hFill
  · rintro ⟨hIn, b, hFill, hName⟩
    refine ⟨_, ⟨Nat.le_trans (by decide) hIn, rfl⟩, _, ⟨hIn, rfl⟩, b, ?_, hName⟩
    simp only [BaseMessage.advance, hLen, hSize]
    exact hFill

theorem deserializeHelper_eq_ok {data : Bytes} {m : MessageObject} {r : BaseMessage} :
    m.toBaseMessage.deserializeHelper data = .ok r ↔
      16 + 8 * wireSize data ≤ data.length ∧
      m.mArrayLikeIndex + 1 ≤ m.arrayLikeLenghts.length + wireSize data ∧
      16 + 8 * wireSize data + (m.table data).headD 0 ≤ data.length ∧
      r = m.helped data := by
  rw [deserializeHelper_headed]
  have hLens : ((m.headed data).filled data (wireSize data)).arrayLikeLenghts.length =
      m.arrayLikeLenghts.length + wireSize data := by
    show (m.arrayLikeLenghts ++ decodeMany 8 (wireSize data) (data.drop 16)).length = _
    rw [List.length_append, decodeMany_length]
  constructor
  · rintro ⟨hIn, b, hFill, s, hName, rfl⟩
    obtain ⟨hTable, rfl⟩ := (BaseMessage.fillArrayLike_eq_ok hIn).mp hFill
    obtain ⟨hEntry, hFits, rfl⟩ := BaseMessage.popString_eq_ok.mp hName
    rw [hLens] at hEntry
    exact ⟨hTable, hEntry, hFits, rfl⟩
  · rintro ⟨hTable, hEntry, hFits, rfl⟩
    have hIn : 16 ≤ data.length := by omega
    refine ⟨hIn, _, (BaseMessage.fillArrayLike_eq_ok hIn).mpr ⟨hTable, rfl⟩, _,
      BaseMessage.popString_eq_ok.mpr ⟨?_, hFits, rfl⟩, rfl⟩
    rw [hLens]
    exact hEntry

/--
**Decoding, exactly.** For flat members `deserialize` completes on a frame if and
only if the frame is long enough for the table it completes, and then leaves
`decoded`.
-/
theorem deserialize_eq_ok {data : Bytes} {m r : MessageObject} (hFlat : ∀ a ∈ m.members, a.Flat) :
    m.deserialize data = .ok r ↔ m.FitsFrame data ∧ r = m.decoded data := by
  have hPending : (m.helped data).pending = (m.table data).drop 1 := by
    rw [BaseMessage.pending, table, List.drop_drop]
    rfl
  have hLens : (m.helped data).arrayLikeLenghts.length =
      m.arrayLikeLenghts.length + wireSize data := by
    show (m.arrayLikeLenghts ++ wireTable data).length = _
    rw [List.length_append, wireTable, decodeMany_length]
  have hDrop : data.drop (m.helped data).mCursor =
      (payload data).drop ((m.table data).headD 0) := by
    rw [payload, List.drop_drop]
    rfl
  simp only [deserialize, bind_eq_ok, deserializeHelper_eq_ok, pure_eq_ok]
  constructor
  · rintro ⟨_, ⟨hTable, hEntry, hName, rfl⟩, _, hPop, rfl⟩
    obtain ⟨hEntries, hAll, rfl⟩ := (BaseMessage.popMembers_eq_ok hFlat
      (b := m.helped data) hName (by rw [hLens]; exact hEntry)).mp hPop
    rw [hPending] at hAll
    rw [hLens] at hEntries
    refine ⟨⟨hTable, hEntries, hAll⟩, ?_⟩
    rw [hPending, hDrop]
    rfl
  · rintro ⟨hFits, rfl⟩
    obtain ⟨hTable, hEntries, hAll⟩ := hFits
    -- what the whole frame needs is enough for the name
    have hEntry : m.mArrayLikeIndex + 1 ≤ m.arrayLikeLenghts.length + wireSize data := by omega
    have hName : 16 + 8 * wireSize data + (m.table data).headD 0 ≤ data.length := by omega
    refine ⟨_, ⟨hTable, hEntry, hName, rfl⟩, _, (BaseMessage.popMembers_eq_ok hFlat
      (b := m.helped data) hName (by rw [hLens]; exact hEntry)).mpr ⟨?_, ?_, rfl⟩, ?_⟩
    · rw [hLens]
      exact hEntries
    · rw [hPending]
      exact hAll
    · rw [hPending, hDrop]
      rfl

end MessageObject

end WarringServer.Message
