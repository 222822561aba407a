import Mathlib.Data.List.Rotate
import Mathlib.Data.Option.Basic
import Mathlib.Order.Lattice

/-!
# Taking turns

Whoever comes after `p` in a list in ascending order is the first one above `p`, or the
head of the list when there is none above.

* `next_eq` — it is the one whose place is the number of members up to `p`;
* `turns_eq_rotate` — as many turns as there are members are a rotation of the list,
  wherever they begin.
-/

namespace RoundRobin

variable {α : Type*} [LinearOrder α]

/-- The member that comes after `p`. -/
def next (members : List α) (p : α) : Option α := (members.find? (p < ·)).or members.head?

/-- The members that come after `p`, one after the other. -/
def turns (members : List α) : Nat → α → List α
  | 0, _ => []
  | k + 1, p =>
    match next members p with
    | none => []
    | some a => a :: turns members k a

section

variable {members : List α}

theorem next_mem {p a : α} (h : next members p = some a) : a ∈ members := by
  rcases Option.or_eq_some_iff.mp h with hAbove | ⟨-, hHead⟩
  · exact List.mem_of_find?_eq_some hAbove
  · exact List.mem_of_head? hHead

theorem mem_of_mem_turns {k : Nat} {p a : α} (h : a ∈ turns members k p) : a ∈ members := by
  induction k generalizing p with
  | zero => exact absurd h List.not_mem_nil
  | succ k ih =>
    rw [turns] at h
    cases hNext : next members p with
    | none =>
      rw [hNext] at h
      exact absurd h List.not_mem_nil
    | some b =>
      rw [hNext] at h
      rcases List.mem_cons.mp h with rfl | h
      · exact next_mem hNext
      · exact ih h

theorem next_eq_none {p : α} (h : next members p = none) : members = [] :=
  List.head?_eq_none_iff.mp (Option.or_eq_none_iff.mp h).2

variable (hSorted : members.Pairwise (· < ·))
include hSorted

/-- It is the lowest above `p`, or the lowest when nothing is above. -/
theorem next_cases {p a : α} (h : next members p = some a) :
    (p < a ∧ ∀ b ∈ members, p < b → a ≤ b) ∨ (∀ b ∈ members, b ≤ p) ∧ ∀ b ∈ members, a ≤ b := by
  rcases Option.or_eq_some_iff.mp h with hAbove | ⟨hNone, hHead⟩
  · obtain ⟨hLt, before, after, rfl, hBefore⟩ := List.find?_eq_some_iff_append.mp hAbove
    refine Or.inl ⟨by simpa using hLt, fun b hb hb' => ?_⟩
    rcases List.mem_append.mp hb with hb | hb
    · have hNot := hBefore b hb
      simp [hb'] at hNot
    · rcases List.mem_cons.mp hb with rfl | hb
      · exact le_rfl
      · exact ((List.pairwise_cons.mp (List.pairwise_append.mp hSorted).2.1).1 b hb).le
  · refine Or.inr ⟨fun b hb => by simpa using List.find?_eq_none.mp hNone b hb, fun b hb => ?_⟩
    obtain ⟨rest, rfl⟩ := List.head?_eq_some_iff.mp hHead
    rcases List.mem_cons.mp hb with rfl | hb
    · exact le_rfl
    · exact ((List.pairwise_cons.mp hSorted).1 b hb).le

theorem find_above (p : α) : members.find? (p < ·) = members[members.countP (· ≤ p)]? := by
  induction members with
  | nil => rfl
  | cons a rest ih =>
    obtain ⟨hAbove, hRest⟩ := List.pairwise_cons.mp hSorted
    by_cases hLt : p < a
    · -- everything is above
      have hNone : (a :: rest).countP (· ≤ p) = 0 := by
        refine List.countP_eq_zero.mpr ?_
        intro b hb
        rcases List.mem_cons.mp hb with rfl | hb
        · simpa using hLt
        · simpa using hLt.trans (hAbove b hb)
      rw [hNone, List.find?_cons_of_pos (by simpa using hLt), List.getElem?_cons_zero]
    · rw [List.find?_cons_of_neg (by simpa using hLt), ih hRest,
        List.countP_cons_of_pos (by simpa using hLt), List.getElem?_cons_succ]

/-- Up to a member there are those before it, and itself. -/
theorem countP_getElem {i : Nat} (hi : i < members.length) :
    members.countP (· ≤ members[i]) = i + 1 := by
  induction members generalizing i with
  | nil => exact absurd hi (Nat.not_lt_zero i)
  | cons a rest ih =>
    obtain ⟨hAbove, hRest⟩ := List.pairwise_cons.mp hSorted
    cases i with
    | zero =>
      have hNone : rest.countP (· ≤ a) = 0 :=
        List.countP_eq_zero.mpr fun b hb => by simpa using hAbove b hb
      rw [List.getElem_cons_zero, List.countP_cons_of_pos (by simp), hNone]
    | succ i =>
      have hi' : i < rest.length := Nat.lt_of_succ_lt_succ hi
      have hLe : a ≤ rest[i] := (hAbove _ (List.getElem_mem hi')).le
      rw [List.getElem_cons_succ, List.countP_cons_of_pos (by simpa using hLe), ih hRest hi']

/-- **Who is next**, by place. -/
theorem next_eq (p : α) :
    next members p = members[members.countP (· ≤ p) % members.length]? := by
  rw [next, find_above hSorted]
  rcases Nat.lt_or_ge (members.countP (· ≤ p)) members.length with hLt | hGe
  · rw [Nat.mod_eq_of_lt hLt, List.getElem?_eq_getElem hLt, Option.some_or]
  · have hAll : members.countP (· ≤ p) = members.length :=
      Nat.le_antisymm List.countP_le_length hGe
    rw [hAll, Nat.mod_self, List.getElem?_length, Option.none_or, List.head?_eq_getElem?]

theorem turns_eq_map (hMembers : members ≠ []) (k : Nat) (p : α) :
    (turns members k p).map some =
      (List.range k).map fun i => members[(members.countP (· ≤ p) + i) % members.length]? := by
  have hPos : 0 < members.length := List.length_pos_iff.mpr hMembers
  induction k generalizing p with
  | zero => rfl
  | succ k ih =>
    have hPlace := Nat.mod_lt (members.countP (· ≤ p)) hPos
    have hNext := next_eq hSorted p
    rw [List.getElem?_eq_getElem hPlace] at hNext
    rw [turns, hNext, List.range_succ_eq_map, List.map_cons, List.map_cons, List.map_map, ih,
      countP_getElem hSorted hPlace]
    refine congrArg₂ List.cons (List.getElem?_eq_getElem hPlace).symm
      (List.map_congr_left fun i _ => ?_)
    have hSame : (members.countP (· ≤ p) % members.length + 1 + i) % members.length =
        (members.countP (· ≤ p) + (i + 1)) % members.length := by
      rw [Nat.add_assoc, Nat.mod_add_mod, Nat.add_comm 1 i]
    show members[_]? = members[_]?
    rw [hSame]

/-- **A whole round** takes every member once, in their order. -/
theorem turns_eq_rotate (hMembers : members ≠ []) (p : α) :
    turns members members.length p = members.rotate (members.countP (· ≤ p)) := by
  refine List.map_injective_iff.mpr (Option.some_injective α) ?_
  rw [turns_eq_map hSorted hMembers]
  refine List.ext_getElem (by simp) ?_
  intro i hi _
  rw [List.length_map, List.length_range] at hi
  have hPos : 0 < members.length := Nat.lt_of_le_of_lt (Nat.zero_le i) hi
  rw [List.getElem_map, List.getElem_range, List.getElem_map, List.getElem_rotate,
    Nat.add_comm i, List.getElem?_eq_getElem (Nat.mod_lt _ hPos)]

end

end RoundRobin
