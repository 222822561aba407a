import Mathlib.Data.Set.Function
import Mathlib.Logic.Function.Basic
import Mathlib.Order.Interval.Set.Defs

/-!
# Arrays without gaps

Each key has a place in an array, and each place of the array has a key. A new key goes to
the end, and where a key is taken out, the last one comes to its place.

* `Placed.append`, `Placed.set`, `Placed.swapRemove` — what is done to the array keeps it so;
* `getElem?_append_of_mem`, `Placed.getElem?_set_of_ne`, `Placed.getElem?_swapRemove` — no
  other key sees it.
-/

namespace SwapRemove

variable {κ α : Type*}

/-- One key for every place of the array. -/
def Placed (keys : Set κ) (place : κ → Nat) (xs : List α) : Prop :=
  Set.BijOn place keys (Set.Iio xs.length)

/-- The last entry goes to the place `i`. -/
def swapRemove (xs : List α) (i : Nat) : List α :=
  match xs.getLast? with
  | none => xs
  | some back => (xs.set i back).dropLast

variable {keys : Set κ} {place : κ → Nat} {xs : List α} {k k' last : κ} {x : α}

/-- A place is inside the list. -/
theorem Placed.lt (h : Placed keys place xs) (hk : k ∈ keys) : place k < xs.length :=
  h.mapsTo hk

/-- So there is an element at it. -/
theorem Placed.getElem? (h : Placed keys place xs) (hk : k ∈ keys) : ∃ x, xs[place k]? = some x :=
  ⟨_, List.getElem?_eq_getElem (h.lt hk)⟩

/-- Two keys have two places. -/
theorem Placed.ne_of_ne (h : Placed keys place xs) (hk : k ∈ keys) (hk' : k' ∈ keys)
    (hNe : k' ≠ k) : place k' ≠ place k :=
  fun hEq => hNe (h.injOn hk' hk hEq)

/-- The key of the last place. -/
theorem Placed.back (h : Placed keys place xs) (hk : k ∈ keys) :
    ∃ last ∈ keys, place last = xs.length - 1 := by
  have hLt := h.lt hk
  exact h.surjOn (show xs.length - 1 < xs.length by omega)

/-- Nothing has been placed. -/
theorem placed_nil : Placed ∅ place ([] : List α) := by
  have hNone : Set.Iio ([] : List α).length = ∅ := Set.eq_empty_of_forall_notMem fun _ h => nomatch h
  rw [Placed, hNone]
  exact Set.bijOn_empty place

-- ---------------------------------------------------------------------------
-- A new value
-- ---------------------------------------------------------------------------

/-- Writing at a place moves nothing. -/
theorem Placed.set (h : Placed keys place xs) (i : Nat) (x : α) : Placed keys place (xs.set i x) := by
  rw [Placed, List.length_set]
  exact h

/-- What is written for one key is not read for another. -/
theorem Placed.getElem?_set_of_ne (h : Placed keys place xs) (hk : k ∈ keys) (hk' : k' ∈ keys)
    (hNe : k' ≠ k) : (xs.set (place k) x)[place k']? = xs[place k']? :=
  List.getElem?_set_ne (h.ne_of_ne hk hk' hNe).symm

-- ---------------------------------------------------------------------------
-- A new key
-- ---------------------------------------------------------------------------

variable [DecidableEq κ]

/-- A new key gets the place behind the last. -/
theorem Placed.append (h : Placed keys place xs) (hk : k ∉ keys) (x : α) :
    Placed (insert k keys) (Function.update place k xs.length) (xs ++ [x]) := by
  -- the old places and the one behind them
  have hOthers : Set.BijOn (Function.update place k xs.length) keys (Set.Iio xs.length) :=
    h.congr fun k' hk' => (Function.update_of_ne (ne_of_mem_of_not_mem hk' hk) ..).symm
  have hLonger : Set.Iio (xs ++ [x]).length = insert xs.length (Set.Iio xs.length) := by
    ext i
    rw [Set.mem_insert_iff, Set.mem_Iio, Set.mem_Iio, List.length_append, List.length_singleton]
    omega
  rw [Placed, hLonger]
  have hBoth := hOthers.insert (a := k) (by rw [Function.update_self]; exact lt_irrefl xs.length)
  rwa [Function.update_self] at hBoth

/-- The others keep theirs. -/
theorem Placed.getElem?_append_of_mem (h : Placed keys place xs) (hk : k ∉ keys) (hk' : k' ∈ keys) :
    (xs ++ [x])[Function.update place k xs.length k']? = xs[place k']? := by
  rw [Function.update_of_ne (ne_of_mem_of_not_mem hk' hk), List.getElem?_append_left (h.lt hk')]

-- ---------------------------------------------------------------------------
-- A key less
-- ---------------------------------------------------------------------------

/-- With its last element named, the list is written once and cut. -/
theorem swapRemove_eq (hBack : xs[xs.length - 1]? = some x) (i : Nat) :
    swapRemove xs i = (xs.set i x).dropLast := by
  rw [swapRemove, List.getLast?_eq_getElem?, hBack]

/-- The last entry itself. -/
theorem swapRemove_last : swapRemove xs (xs.length - 1) = xs.dropLast := by
  cases hBack : xs[xs.length - 1]? with
  | none =>
    have hNil : xs = [] := by
      rw [List.getElem?_eq_none_iff] at hBack
      exact List.length_eq_zero_iff.mp (by omega)
    rw [hNil]
    rfl
  | some x =>
    obtain ⟨hLt, hGet⟩ := List.getElem?_eq_some_iff.mp hBack
    rw [swapRemove_eq hBack, ← hGet, List.set_getElem_self]

/-- One element is gone. -/
theorem length_swapRemove (i : Nat) : (swapRemove xs i).length = xs.length - 1 := by
  unfold swapRemove
  cases hBack : xs.getLast? with
  | none => rw [List.getLast?_eq_none_iff.mp hBack]; rfl
  | some x => rw [List.length_dropLast, List.length_set]

/-- **Removal**: the key of the last element gets the place that has become free, and the others
keep theirs. -/
theorem Placed.swapRemove (h : Placed keys place xs) (hk : k ∈ keys) (hLast : last ∈ keys)
    (hEnd : place last = xs.length - 1) :
    Placed (keys \ {k}) (Function.update place last (place k)) (swapRemove xs (place k)) := by
  have hLt := h.lt hk
  have hOther {k' : κ} (hk' : k' ∈ keys) (hNe : k' ≠ last) : place k' ≠ xs.length - 1 :=
    hEnd ▸ h.ne_of_ne hLast hk' hNe
  rw [Placed, length_swapRemove]
  refine ⟨?_, ?_, ?_⟩
  · intro k' hk'
    -- only the last key was at the end, and it has left it
    have hLt' := h.lt hk'.1
    have hNe := h.ne_of_ne hk hk'.1 hk'.2
    rw [Set.mem_Iio]
    by_cases hIs : k' = last
    · rw [hIs, Function.update_self]
      rw [hIs] at hNe
      omega
    · rw [Function.update_of_ne hIs]
      have hNotEnd := hOther hk'.1 hIs
      omega
  · intro k₁ hk₁ k₂ hk₂ hEq
    -- nobody else has come to the place of `k`
    have hNe₁ := h.ne_of_ne hk hk₁.1 hk₁.2
    have hNe₂ := h.ne_of_ne hk hk₂.1 hk₂.2
    by_cases hIs₁ : k₁ = last
    · by_cases hIs₂ : k₂ = last
      · rw [hIs₁, hIs₂]
      · rw [hIs₁, Function.update_self, Function.update_of_ne hIs₂] at hEq
        exact absurd hEq.symm hNe₂
    · by_cases hIs₂ : k₂ = last
      · rw [hIs₂, Function.update_self, Function.update_of_ne hIs₁] at hEq
        exact absurd hEq hNe₁
      · rw [Function.update_of_ne hIs₁, Function.update_of_ne hIs₂] at hEq
        exact h.injOn hk₁.1 hk₂.1 hEq
  · intro i hi
    rw [Set.mem_Iio] at hi
    by_cases hHole : i = place k
    · -- the place of `k` is that of the last key now
      have hNe : last ≠ k := by
        rintro rfl
        omega
      exact ⟨last, ⟨hLast, hNe⟩, by rw [Function.update_self, hHole]⟩
    · -- any other place is that of the key it had
      obtain ⟨k', hk', rfl⟩ := h.surjOn (show i < xs.length by omega)
      have hNe : k' ≠ last := by
        rintro rfl
        omega
      refine ⟨k', ⟨hk', fun hEq => hHole (by rw [Set.mem_singleton_iff.mp hEq])⟩, ?_⟩
      rw [Function.update_of_ne hNe]

/-- The other keys keep their entries. -/
theorem Placed.getElem?_swapRemove (h : Placed keys place xs) (hk : k ∈ keys) (hLast : last ∈ keys)
    (hEnd : place last = xs.length - 1) (hk' : k' ∈ keys) (hNe : k' ≠ k) :
    (SwapRemove.swapRemove xs (place k))[Function.update place last (place k) k']? =
      xs[place k']? := by
  obtain ⟨x, hBack⟩ := h.getElem? hLast
  have hLt := h.lt hk
  have hLt' := h.lt hk'
  have hApart := h.ne_of_ne hk hk' hNe
  rw [swapRemove_eq (hEnd ▸ hBack), List.getElem?_dropLast, List.length_set]
  by_cases hIs : k' = last
  · -- it is read where it has been copied to
    rw [hIs] at hApart ⊢
    rw [Function.update_self, if_pos (by omega), List.getElem?_set_self hLt, hBack]
  · have hNotEnd := h.ne_of_ne hLast hk' hIs
    rw [Function.update_of_ne hIs, if_pos (by omega), List.getElem?_set_ne hApart.symm]

end SwapRemove
