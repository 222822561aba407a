import Mathlib.Data.Prod.Lex
import WarringServer.Lib.Decimal
import WarringServer.Lib.Descending
import WarringServer.Message.BaseMessage

/-!
# The id before an id

`getPreviousID` of `RSBrokerHelper` asks for the two newest entries up to an id and takes
the smaller of their ids. The stream has its ids in the order of their numbers, the helper
compares the texts.

* `text_lt_iff` — the orders agree on ids with the same numbers of digits;
* `previous_iff` — when the answer is right.
-/

namespace WarringServer.Broker

open Message Descending

-- ---------------------------------------------------------------------------
-- Ids of entries
-- ---------------------------------------------------------------------------

/-- The id of an entry, `ms-seq`. -/
structure EntryId where
  ms : Nat
  seq : Nat
  deriving DecidableEq, Repr

namespace EntryId

/-- By `ms`, then by `seq`. -/
instance : LinearOrder EntryId :=
  LinearOrder.lift' (fun id => toLex (id.ms, id.seq)) fun id id' h => by
    obtain ⟨hMs, hSeq⟩ := Prod.mk.inj (toLex.injective h)
    cases id
    cases id'
    simp_all

theorem lt_iff {id id' : EntryId} :
    id < id' ↔ id.ms < id'.ms ∨ id.ms = id'.ms ∧ id.seq < id'.seq :=
  Prod.Lex.toLex_lt_toLex

/-- As Redis writes it. -/
def text (id : EntryId) : Bytes := Decimal.text id.ms ++ 45 :: Decimal.text id.seq

theorem hyphen_not_mem_decimal {n : Nat} : (45 : UInt8) ∉ Decimal.text n := by
  intro h
  exact absurd (Decimal.isDigit_of_mem_text h).1 (by decide)

theorem text_injective : Function.Injective text := by
  intro id id' h
  obtain ⟨hMs, -, hSeq⟩ := (List.append_cons_inj_of_notMem hyphen_not_mem_decimal
    hyphen_not_mem_decimal).mp h
  cases id
  cases id'
  rw [mk.injEq]
  exact ⟨Decimal.text_injective hMs, Decimal.text_injective hSeq⟩

theorem text_ne_nil {id : EntryId} : id.text ≠ [] := by
  simp [text]

/-- The same numbers of digits. -/
def SameDigits (id id' : EntryId) : Prop :=
  (Decimal.text id.ms).length = (Decimal.text id'.ms).length ∧
    (Decimal.text id.seq).length = (Decimal.text id'.seq).length

/-- Then the texts are in the order of the numbers. -/
theorem text_lt_iff {id id' : EntryId} (h : SameDigits id id') : id.text < id'.text ↔ id < id' := by
  have hDecimal : ∀ {n m : Nat}, (Decimal.text n).length = (Decimal.text m).length →
      (Decimal.text n < Decimal.text m ↔ n < m) := by
    intro n m hLength
    rw [Decimal.lt_iff_value_lt hLength (fun c => Decimal.isDigit_of_mem_text)
      (fun c => Decimal.isDigit_of_mem_text), Decimal.value_text, Decimal.value_text]
  rw [text, text, Decimal.append_lt_append_iff h.1, List.cons_lt_cons_iff, hDecimal h.1,
    hDecimal h.2, Decimal.text_injective.eq_iff, lt_iff]
  simp

end EntryId

/-- The ids in a stream. Each entry comes with an id above those before it. -/
structure EntryIds where
  ids : List EntryId
  ascending : ids.Pairwise (· < ·)

namespace EntryIds

/-- `XREVRANGE key id - COUNT count`, the ids of it. -/
def xrevrange (s : EntryIds) (id : EntryId) (count : Nat) : List EntryId :=
  (s.ids.filter (· ≤ id)).reverse.take count

/-- `std::min` of two strings. -/
def minText (a b : Bytes) : Bytes := if b < a then b else a

def getPreviousID (s : EntryIds) (id : EntryId) : Bytes :=
  match s.xrevrange id 2 with
  | first :: second :: _ => minText first.text second.text
  | _ => []

/-- The entries before an id. -/
def before (s : EntryIds) (id : EntryId) : Set EntryId := {q | q ∈ s.ids ∧ q < id}

/-- The greatest id before the given one, or the empty string if there is none. -/
def Previous (s : EntryIds) (id : EntryId) (result : Bytes) : Prop :=
  (∃ p, IsGreatest (s.before id) p ∧ result = p.text) ∨ s.before id = ∅ ∧ result = []

/-- There is nothing before the id; or it is in the stream, and the one before it has the
smaller text; or it is not, and the newest two before it do not have the texts of the older
one first. -/
def InTextOrder (s : EntryIds) (id : EntryId) : Prop :=
  s.before id = ∅ ∨
    (id ∈ s.ids ∧ ∃ p, IsGreatest (s.before id) p ∧ p.text < id.text) ∨
    (id ∉ s.ids ∧ ∃ p q, IsGreatest (s.before id) p ∧ IsGreatest (s.before p) q ∧
      ¬ q.text < p.text)

section

variable {s : EntryIds} {id p q : EntryId} {ps : List EntryId}

theorem xrevrange_eq (s : EntryIds) (id : EntryId) (count : Nat) :
    s.xrevrange id count = (upTo s.ids id).take count := rfl

theorem before_eq_empty_iff : s.before id = ∅ ↔ under s.ids id = [] := by
  rw [under_eq_nil_iff, Set.eq_empty_iff_forall_notMem]
  exact ⟨fun h q hq hLt => h q ⟨hq, hLt⟩, fun h q hq => h q hq.1 hq.2⟩

theorem before_ne_empty (hp : IsGreatest (s.before id) p) : s.before id ≠ ∅ :=
  Set.nonempty_iff_ne_empty.mp ⟨p, hp.1⟩

/-- There is one right answer. -/
theorem previous_iff_of_isGreatest {result : Bytes} (hp : IsGreatest (s.before id) p) :
    s.Previous id result ↔ result = p.text := by
  constructor
  · rintro (⟨p', hp', hResult⟩ | ⟨hNone, -⟩)
    · rwa [hp.unique hp']
    · exact absurd hNone (before_ne_empty hp)
  · intro hResult
    exact Or.inl ⟨p, hp, hResult⟩

theorem minText_eq_right (h : p ≠ q) : minText p.text q.text = q.text ↔ q.text < p.text := by
  unfold minText
  split
  · rename_i hLt
    exact iff_of_true rfl hLt
  · rename_i hLt
    exact iff_of_false (fun hText => h (EntryId.text_injective hText)) hLt

theorem minText_eq_left (h : p ≠ q) : minText p.text q.text = p.text ↔ ¬ q.text < p.text := by
  unfold minText
  split
  · rename_i hLt
    exact iff_of_false (fun hText => h (EntryId.text_injective hText.symm)) (not_not_intro hLt)
  · rename_i hLt
    exact iff_of_true rfl hLt

/-- The id is in the stream: it is compared with the one before it. -/
theorem previous_iff_of_mem (hMem : id ∈ s.ids) (hUnder : under s.ids id = p :: ps) :
    s.Previous id (s.getPreviousID id) ↔ p.text < id.text := by
  have hp : IsGreatest (s.before id) p := isGreatest_of_under s.ascending hUnder
  have hAnswer : s.getPreviousID id = minText id.text p.text := by
    rw [getPreviousID, xrevrange_eq, upTo_of_mem s.ascending hMem, hUnder]
    rfl
  rw [previous_iff_of_isGreatest hp, hAnswer, minText_eq_right hp.1.2.ne']

/-- It is not: the two before it are compared. -/
theorem previous_iff_of_not_mem (hMem : id ∉ s.ids) (hUnder : under s.ids id = p :: q :: ps) :
    s.Previous id (s.getPreviousID id) ↔ ¬ q.text < p.text := by
  have hp : IsGreatest (s.before id) p := isGreatest_of_under s.ascending hUnder
  have hq : IsGreatest (s.before p) q := isGreatest_of_under_cons s.ascending hUnder
  have hAnswer : s.getPreviousID id = minText p.text q.text := by
    rw [getPreviousID, xrevrange_eq, upTo_of_not_mem s.ascending hMem, hUnder]
    rfl
  rw [previous_iff_of_isGreatest hp, hAnswer, minText_eq_left hq.1.2.ne']

/-- It is not, and there is one before it: it is not found. -/
theorem getPreviousID_of_single (hMem : id ∉ s.ids) (hUnder : under s.ids id = [p]) :
    s.getPreviousID id = [] := by
  rw [getPreviousID, xrevrange_eq, upTo_of_not_mem s.ascending hMem, hUnder]
  rfl

theorem getPreviousID_of_nil (hUnder : under s.ids id = []) : s.getPreviousID id = [] := by
  by_cases hMem : id ∈ s.ids
  · rw [getPreviousID, xrevrange_eq, upTo_of_mem s.ascending hMem, hUnder]
    rfl
  · rw [getPreviousID, xrevrange_eq, upTo_of_not_mem s.ascending hMem, hUnder]
    rfl

end

/-- **When the answer is right.** -/
theorem previous_iff (s : EntryIds) (id : EntryId) :
    s.Previous id (s.getPreviousID id) ↔ s.InTextOrder id := by
  rcases hUnder : under s.ids id with _ | ⟨p, ps⟩
  · have hNone := before_eq_empty_iff.mpr hUnder
    exact iff_of_true (Or.inr ⟨hNone, getPreviousID_of_nil hUnder⟩) (Or.inl hNone)
  have hp : IsGreatest (s.before id) p := isGreatest_of_under s.ascending hUnder
  have hSome := before_ne_empty hp
  by_cases hMem : id ∈ s.ids
  · rw [previous_iff_of_mem hMem hUnder]
    constructor
    · intro hText
      exact Or.inr (Or.inl ⟨hMem, p, hp, hText⟩)
    · rintro (hNone | ⟨-, p', hp', hText⟩ | ⟨hNot, -⟩)
      · exact absurd hNone hSome
      · rwa [hp.unique hp']
      · exact absurd hMem hNot
  · rcases ps with _ | ⟨q, ps⟩
    · rw [previous_iff_of_isGreatest hp, getPreviousID_of_single hMem hUnder]
      refine iff_of_false (fun hText => EntryId.text_ne_nil hText.symm) ?_
      rintro (hNone | ⟨hIs, -⟩ | ⟨-, p', q, hp', hq, -⟩)
      · exact hSome hNone
      · exact hMem hIs
      · rw [← hp.unique hp'] at hq
        exact before_ne_empty hq
          (before_eq_empty_iff.mpr (under_of_under_cons s.ascending hUnder))
    · have hq : IsGreatest (s.before p) q := isGreatest_of_under_cons s.ascending hUnder
      rw [previous_iff_of_not_mem hMem hUnder]
      constructor
      · intro hText
        exact Or.inr (Or.inr ⟨hMem, p, q, hp, hq, hText⟩)
      · rintro (hNone | ⟨hIs, -⟩ | ⟨-, p', q', hp', hq', hText⟩)
        · exact absurd hNone hSome
        · exact absurd hIs hMem
        · rw [← hp.unique hp'] at hq' hText
          rwa [hq.unique hq']

section

variable {s : EntryIds} {id : EntryId}

/-- Where the numbers of digits do not change, an id of the stream gets the right answer, and no
other one does that has an entry before it. -/
theorem inTextOrder_of_sameDigits (h : ∀ p ∈ s.ids, ∀ q ∈ s.ids, EntryId.SameDigits p q) :
    s.InTextOrder id ↔ s.before id = ∅ ∨ id ∈ s.ids := by
  constructor
  · rintro (hNone | ⟨hMem, -⟩ | ⟨-, p, q, hp, hq, hText⟩)
    · exact Or.inl hNone
    · exact Or.inr hMem
    · exact absurd ((EntryId.text_lt_iff (h q hq.1.1 p hp.1.1)).mpr hq.1.2) hText
  · rintro (hNone | hMem)
    · exact Or.inl hNone
    · rcases hUnder : under s.ids id with _ | ⟨p, ps⟩
      · exact Or.inl (before_eq_empty_iff.mpr hUnder)
      · have hp : IsGreatest (s.before id) p := isGreatest_of_under s.ascending hUnder
        exact Or.inr (Or.inl ⟨hMem, p, hp, (EntryId.text_lt_iff (h p hp.1.1 id hMem)).mpr hp.1.2⟩)

end

-- ---------------------------------------------------------------------------
-- Nine and ten
-- ---------------------------------------------------------------------------

/-- Two entries of one millisecond. -/
def nineTen : EntryIds where
  ids := [⟨5, 9⟩, ⟨5, 10⟩]
  ascending := by decide

/-- The id before an id is that id. -/
theorem previous_of_ten :
    ¬ ∀ (s : EntryIds) (id : EntryId), s.Previous id (s.getPreviousID id) := by
  intro h
  have hp : IsGreatest (nineTen.before ⟨5, 10⟩) ⟨5, 9⟩ :=
    isGreatest_of_under nineTen.ascending
      (show under nineTen.ids ⟨5, 10⟩ = [⟨5, 9⟩] by decide)
  have hAnswer := (previous_iff_of_isGreatest hp).mp (h nineTen ⟨5, 10⟩)
  revert hAnswer
  decide

end EntryIds

end WarringServer.Broker
