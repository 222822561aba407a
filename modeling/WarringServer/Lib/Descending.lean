import Mathlib.Data.List.Sort
import Mathlib.Order.Bounds.Basic

/-!
# An ascending list from a bound downwards

A list in strictly ascending order, read from a bound towards its beginning.

* `upTo_of_mem` — what is up to the bound is the bound, if it is there, and what is under it;
* `isGreatest_of_under` — the first one under the bound is the greatest;
* `isGreatest_of_under_cons` — the second one is the greatest under the first.
-/

namespace Descending

section

variable {α : Type*} [LinearOrder α] {l : List α} {a p q : α} {ps : List α}

/-- What is not above the bound, greatest first. -/
def upTo (l : List α) (a : α) : List α := (l.filter (· ≤ a)).reverse

/-- What is below the bound, greatest first. -/
def under (l : List α) (a : α) : List α := (l.filter (· < a)).reverse

/-- Only the order is new. -/
@[simp] theorem mem_upTo : q ∈ upTo l a ↔ q ∈ l ∧ q ≤ a := by
  simp [upTo]

/-- As with `upTo`, without the bound itself. -/
@[simp] theorem mem_under : q ∈ under l a ↔ q ∈ l ∧ q < a := by
  simp [under]

/-- An ascending list is read downwards. -/
theorem upTo_pairwise (h : l.Pairwise (· < ·)) : (upTo l a).Pairwise (· > ·) :=
  List.pairwise_reverse.mpr (h.filter _)

/-- Downwards, from below the bound. -/
theorem under_pairwise (h : l.Pairwise (· < ·)) : (under l a).Pairwise (· > ·) :=
  List.pairwise_reverse.mpr (h.filter _)

/-- The bound itself comes first, if it is in the list. -/
theorem upTo_of_mem (h : l.Pairwise (· < ·)) (ha : a ∈ l) : upTo l a = a :: under l a := by
  -- two strictly descending lists with the same elements are one list
  refine (upTo_pairwise h).eq_of_mem_iff (List.pairwise_cons.mpr ⟨?_, under_pairwise h⟩) ?_
  · intro q hq
    exact (mem_under.mp hq).2
  · intro q
    rw [mem_upTo, List.mem_cons, mem_under, le_iff_eq_or_lt]
    constructor
    · rintro ⟨hq, rfl | hLt⟩
      · exact Or.inl rfl
      · exact Or.inr ⟨hq, hLt⟩
    · rintro (rfl | ⟨hq, hLt⟩)
      · exact ⟨ha, Or.inl rfl⟩
      · exact ⟨hq, Or.inr hLt⟩

/-- Where the bound is not in the list, there is nothing at it. -/
theorem upTo_of_not_mem (h : l.Pairwise (· < ·)) (ha : a ∉ l) : upTo l a = under l a := by
  refine (upTo_pairwise h).eq_of_mem_iff (under_pairwise h) ?_
  intro q
  rw [mem_upTo, mem_under, le_iff_eq_or_lt]
  constructor
  · rintro ⟨hq, rfl | hLt⟩
    · exact absurd hq ha
    · exact ⟨hq, hLt⟩
  · rintro ⟨hq, hLt⟩
    exact ⟨hq, Or.inr hLt⟩

/-- Nothing is under the least element. -/
theorem under_eq_nil_iff : under l a = [] ↔ ∀ q ∈ l, ¬ q < a := by
  rw [under, List.reverse_eq_nil_iff, List.filter_eq_nil_iff]
  simp

/-- The first one is the greatest below the bound. -/
theorem isGreatest_of_under (h : l.Pairwise (· < ·)) (hUnder : under l a = p :: ps) :
    IsGreatest {q | q ∈ l ∧ q < a} p := by
  refine ⟨mem_under.mp (hUnder ▸ List.mem_cons_self), ?_⟩
  intro q hq
  have hMem : q ∈ p :: ps := hUnder ▸ mem_under.mpr hq
  -- whatever comes behind the first is less
  have hFirst := List.pairwise_cons.mp (hUnder ▸ under_pairwise h)
  rcases List.mem_cons.mp hMem with rfl | hRest
  · exact le_refl q
  · exact (hFirst.1 q hRest).le

/-- What is under the first one is the rest. -/
theorem under_of_under_cons (h : l.Pairwise (· < ·)) (hUnder : under l a = p :: ps) :
    under l p = ps := by
  obtain ⟨hFirst, hRest⟩ := List.pairwise_cons.mp (hUnder ▸ under_pairwise h)
  refine (under_pairwise h).eq_of_mem_iff hRest ?_
  intro q
  have hp := (mem_under.mp (hUnder ▸ List.mem_cons_self : p ∈ under l a)).2
  rw [mem_under]
  constructor
  · -- below the first one, hence not it
    rintro ⟨hq, hLt⟩
    have hMem : q ∈ p :: ps := hUnder ▸ mem_under.mpr ⟨hq, hLt.trans hp⟩
    exact (List.mem_cons.mp hMem).resolve_left hLt.ne
  · intro hq
    have hMem : q ∈ under l a := hUnder ▸ List.mem_cons_of_mem p hq
    exact ⟨(mem_under.mp hMem).1, hFirst q hq⟩

/-- The second one is the greatest below the first. -/
theorem isGreatest_of_under_cons (h : l.Pairwise (· < ·)) (hUnder : under l a = p :: q :: ps) :
    IsGreatest {r | r ∈ l ∧ r < p} q :=
  isGreatest_of_under h (under_of_under_cons h hUnder)

end

end Descending
