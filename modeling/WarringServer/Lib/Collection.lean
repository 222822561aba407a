import Mathlib.Data.List.Basic
import Mathlib.Data.List.Nodup
import Mathlib.Tactic.Common

/-!
# Collections of documents under unique indexes

A collection is the list of its documents in natural order: a lookup, an update and
a deletion of one document take the first one that matches. An index maps a document
to its keys, several if it runs over an array; a unique index keeps two documents from
sharing a key and says nothing about one document.

* `updateFirst` — the first match changed, the rest as it was. Also what a positional
  update does to an array;
* `insertOne`, `updateOne` — with the duplicate-key error as `none`. An update is
  checked for the keys it adds.

`insertOne_unique` and `updateOne_unique`: neither operation breaks an index.
`updateOne_keeps` covers the updates that leave the keys alone; they never fail.
-/

namespace Collection

variable {α β κ : Type*}

-- ---------------------------------------------------------------------------
-- The first match
-- ---------------------------------------------------------------------------

/-- The first element that meets `p`, changed by `u`. -/
def updateFirst (p : α → Bool) (u : α → α) : List α → List α
  | [] => []
  | d :: ds => if p d then u d :: ds else d :: updateFirst p u ds

section

variable {p : α → Bool} {u : α → α} {c : List α} {d : α}

theorem updateFirst_split {before after : List α} (hBefore : ∀ x ∈ before, p x = false)
    (hd : p d = true) :
    updateFirst p u (before ++ d :: after) = before ++ u d :: after := by
  induction before with
  | nil => simp [updateFirst, hd]
  | cons x before ih =>
    rw [List.cons_append, updateFirst, if_neg (by simp [hBefore x (by simp)]),
      ih fun y hy => hBefore y (by simp [hy]), List.cons_append]

theorem updateFirst_none (h : ∀ x ∈ c, p x = false) : updateFirst p u c = c := by
  induction c with
  | nil => rfl
  | cons x c ih =>
    rw [updateFirst, if_neg (by simp [h x (by simp)]), ih fun y hy => h y (by simp [hy])]

theorem eraseP_split {before after : List α} (hBefore : ∀ x ∈ before, p x = false)
    (hd : p d = true) : (before ++ d :: after).eraseP p = before ++ after := by
  rw [List.eraseP_append_right _ fun x hx => by simp [hBefore x hx],
    List.eraseP_cons_of_pos hd]

/-- A lookup that succeeds cuts the collection at the document it finds. -/
theorem split_of_find (h : c.find? p = some d) :
    p d = true ∧ ∃ before after, c = before ++ d :: after ∧ ∀ x ∈ before, p x = false := by
  obtain ⟨hd, before, after, rfl, hBefore⟩ := List.find?_eq_some_iff_append.mp h
  exact ⟨hd, before, after, rfl, fun x hx => by simpa using hBefore x hx⟩

theorem none_of_find (h : c.find? p = none) : ∀ x ∈ c, p x = false := by
  intro x hx
  simpa using List.find?_eq_none.mp h x hx

/-- What an update leaves alone in one document, it leaves alone in all of them. -/
theorem map_updateFirst {f : α → β} (h : ∀ d, p d = true → f (u d) = f d) (c : List α) :
    (updateFirst p u c).map f = c.map f := by
  induction c with
  | nil => rfl
  | cons x c ih =>
    rw [updateFirst]
    split
    · rename_i hx
      rw [List.map_cons, List.map_cons, h x hx]
    · rw [List.map_cons, List.map_cons, ih]

/-- Updates under a filter that does not see what they change. -/
theorem filter_updateFirst {q : α → Bool} (h : ∀ d, p d = true → q d = false ∧ q (u d) = false)
    (c : List α) : (updateFirst p u c).filter q = c.filter q := by
  induction c with
  | nil => rfl
  | cons x c ih =>
    rw [updateFirst]
    split
    · rename_i hx
      rw [List.filter_cons_of_neg (by simp [(h x hx).2]),
        List.filter_cons_of_neg (by simp [(h x hx).1])]
    · by_cases hx : q x = true
      · rw [List.filter_cons_of_pos hx, List.filter_cons_of_pos hx, ih]
      · rw [List.filter_cons_of_neg hx, List.filter_cons_of_neg hx, ih]

/-- An update finds the same document through a filter that keeps all its matches. -/
theorem updateFirst_filter {q : α → Bool} (h : ∀ d, p d = true → q d = true ∧ q (u d) = true)
    (c : List α) : (updateFirst p u c).filter q = updateFirst p u (c.filter q) := by
  induction c with
  | nil => rfl
  | cons x c ih =>
    rw [updateFirst]
    split
    · rename_i hx
      rw [List.filter_cons_of_pos (h x hx).2, List.filter_cons_of_pos (h x hx).1, updateFirst,
        if_pos hx]
    · rename_i hx
      by_cases hq : q x = true
      · rw [List.filter_cons_of_pos hq, List.filter_cons_of_pos hq, updateFirst, if_neg hx, ih]
      · rw [List.filter_cons_of_neg hq, List.filter_cons_of_neg hq, ih]

theorem find_filter {q : α → Bool} (h : ∀ d, p d = true → q d = true) (c : List α) :
    (c.filter q).find? p = c.find? p := by
  rw [List.find?_filter]
  congr 1
  funext d
  cases hd : p d with
  | false => simp
  | true => simp [h d hd]

/-- An update that keeps its document a match shows in the lookup. -/
theorem find_updateFirst (h : ∀ d, p d = true → p (u d) = true) (c : List α) :
    (updateFirst p u c).find? p = (c.find? p).map u := by
  induction c with
  | nil => rfl
  | cons x c ih =>
    rw [updateFirst]
    by_cases hp : p x = true
    · rw [if_pos hp, List.find?_cons_of_pos (h x hp), List.find?_cons_of_pos hp, Option.map_some]
    · rw [if_neg hp, List.find?_cons_of_neg hp, List.find?_cons_of_neg hp, ih]

/-- A lookup for something else is not affected. -/
theorem find_updateFirst_of_apart {q : α → Bool}
    (h : ∀ d, p d = true → q d = false ∧ q (u d) = false) (c : List α) :
    (updateFirst p u c).find? q = c.find? q := by
  rw [← List.head?_filter, ← List.head?_filter, filter_updateFirst h]

end

-- ---------------------------------------------------------------------------
-- Unique indexes
-- ---------------------------------------------------------------------------

section

/-- The keys by index of a document do not meet those of another one. -/
def Apart (indexes : List (α → List κ)) (d d' : α) : Prop :=
  ∀ keys ∈ indexes, ∀ k ∈ keys d, k ∉ keys d'

/-- No two documents share a key. -/
def Unique (indexes : List (α → List κ)) (c : List α) : Prop := c.Pairwise (Apart indexes)

/-- None of the keys that `d'` has and `d` has not is a key of one of the `others`. -/
def admits [DecidableEq κ] (indexes : List (α → List κ)) (others : List α) (d : Option α) (d' : α) : Bool :=
  indexes.all fun keys => others.all fun o =>
    (keys d').all fun k => (d.any fun d => k ∈ keys d) || k ∉ keys o

def insertOne [DecidableEq κ] (indexes : List (α → List κ)) (d : α) (c : List α) : Option (List α) :=
  if admits indexes c none d then some (c ++ [d]) else none

/-- The collection after the update, with the count of modified documents. -/
def updateOne [DecidableEq α] [DecidableEq κ] (indexes : List (α → List κ)) (p : α → Bool)
    (u : α → α) (c : List α) : Option (List α × Nat) :=
  match c.find? p with
  | none => some (c, 0)
  | some d =>
    if admits indexes (c.eraseP p) (some d) (u d) then
      some (updateFirst p u c, if u d = d then 0 else 1)
    else
      none

/-- The collection after the deletion, with the count of deleted documents. -/
def deleteOne (p : α → Bool) (c : List α) : List α × Nat :=
  (c.eraseP p, if c.any p then 1 else 0)

variable {indexes : List (α → List κ)} {p : α → Bool} {u : α → α} {c : List α} {d : α}

theorem Apart.symm {d' : α} (h : Apart indexes d d') : Apart indexes d' d :=
  fun keys hKeys k hk hk' => h keys hKeys k hk' hk

theorem unique_nil : Unique indexes ([] : List α) := List.Pairwise.nil

/-- A single key of a unique index occurs once. -/
theorem nodup_of_unique {f : α → κ} (hIndex : (fun d => [f d]) ∈ indexes)
    (hUnique : Unique indexes c) : (c.map f).Nodup := by
  rw [List.Nodup, List.pairwise_map]
  exact hUnique.imp fun {d d'} h hEq => h _ hIndex (f d) (by simp) (by simp [hEq])

variable [DecidableEq κ]

theorem admits_none_iff {others : List α} :
    admits indexes others none d = true ↔ ∀ o ∈ others, Apart indexes d o := by
  simp only [admits, List.all_eq_true, Option.any_none, Bool.false_or, decide_eq_true_eq, Apart]
  exact ⟨fun h o ho keys hKeys k hk => h keys hKeys o ho k hk,
    fun h keys hKeys o ho k hk => h o ho keys hKeys k hk⟩

theorem admits_some_iff {others : List α} {d' : α} :
    admits indexes others (some d) d' = true ↔
      ∀ o ∈ others, ∀ keys ∈ indexes, ∀ k ∈ keys d', k ∈ keys d ∨ k ∉ keys o := by
  simp only [admits, List.all_eq_true, Option.any_some, Bool.or_eq_true, decide_eq_true_eq]
  exact ⟨fun h o ho keys hKeys k hk => h keys hKeys o ho k hk,
    fun h keys hKeys o ho k hk => h o ho keys hKeys k hk⟩

theorem admits_of_subset {others : List α} {d' : α}
    (h : ∀ keys ∈ indexes, ∀ k ∈ keys d', k ∈ keys d) :
    admits indexes others (some d) d' = true :=
  admits_some_iff.mpr fun _ _ keys hKeys k hk => Or.inl (h keys hKeys k hk)

/-- A successful insertion appends a document that the others admit. -/
theorem insertOne_eq_some {c' : List α} (h : insertOne indexes d c = some c') :
    admits indexes c none d = true ∧ c' = c ++ [d] := by
  unfold insertOne at h
  split at h
  · exact ⟨‹_›, (Option.some.inj h).symm⟩
  · cases h

theorem insertOne_unique {c' : List α} (hUnique : Unique indexes c)
    (h : insertOne indexes d c = some c') : Unique indexes c' := by
  obtain ⟨hAdmits, rfl⟩ := insertOne_eq_some h
  refine List.pairwise_append.mpr ⟨hUnique, List.pairwise_singleton _ _, ?_⟩
  intro o ho d' hd'
  obtain rfl := List.mem_singleton.mp hd'
  exact (admits_none_iff.mp hAdmits o ho).symm

/-- What a successful update has done: nothing matched, or one document changed to one
that the others admit. -/
theorem updateOne_cases [DecidableEq α] {r : List α × Nat}
    (h : updateOne indexes p u c = some r) :
    ((∀ x ∈ c, p x = false) ∧ r = (c, 0)) ∨
    ∃ before d after, c = before ++ d :: after ∧ (∀ x ∈ before, p x = false) ∧ p d = true ∧
      admits indexes (before ++ after) (some d) (u d) = true ∧
      r = (before ++ u d :: after, if u d = d then 0 else 1) := by
  unfold updateOne at h
  cases hFound : c.find? p with
  | none =>
    rw [hFound] at h
    exact Or.inl ⟨none_of_find hFound, (Option.some.inj h).symm⟩
  | some d =>
    obtain ⟨hd, before, after, rfl, hBefore⟩ := split_of_find hFound
    rw [hFound] at h
    dsimp only at h
    rw [eraseP_split hBefore hd, updateFirst_split hBefore hd] at h
    split at h
    · rename_i hAdmits
      exact Or.inr ⟨before, d, after, rfl, hBefore, hd, hAdmits, (Option.some.inj h).symm⟩
    · cases h

theorem updateOne_unique [DecidableEq α] {r : List α × Nat} (hUnique : Unique indexes c)
    (h : updateOne indexes p u c = some r) : Unique indexes r.1 := by
  obtain ⟨-, rfl⟩ | ⟨before, d, after, rfl, -, -, hAdmits, rfl⟩ := updateOne_cases h
  · exact hUnique
  · -- an old key is apart from the others by the index, a new one by the check
    have hSplit := List.pairwise_append.mp hUnique
    have hAfter := List.pairwise_cons.mp hSplit.2.1
    have hOthers : ∀ o ∈ before ++ after, Apart indexes (u d) o := by
      intro o ho keys hKeys k hk hko
      have hOld : Apart indexes d o := by
        rcases List.mem_append.mp ho with ho | ho
        · exact (hSplit.2.2 o ho d (by simp)).symm
        · exact hAfter.1 o ho
      rcases admits_some_iff.mp hAdmits o ho keys hKeys k hk with hkd | hkn
      · exact hOld keys hKeys k hkd hko
      · exact hkn hko
    refine List.pairwise_append.mpr ⟨hSplit.1, List.pairwise_cons.mpr ⟨?_, hAfter.2⟩, ?_⟩
    · exact fun o ho => hOthers o (by simp [ho])
    · intro o ho x hx
      rcases List.mem_cons.mp hx with rfl | hx
      · exact (hOthers o (by simp [ho])).symm
      · exact hSplit.2.2 o ho x (by simp [hx])

/-- What an update keeps in the document it takes, holds of all documents after it. -/
theorem forall_updateOne [DecidableEq α] {P : α → Prop} {r : List α × Nat}
    (h : updateOne indexes p u c = some r) (hAll : ∀ d ∈ c, P d)
    (hStep : ∀ d, p d = true → P d → P (u d)) : ∀ d ∈ r.1, P d := by
  obtain ⟨-, rfl⟩ | ⟨before, d, after, rfl, -, hd, -, rfl⟩ := updateOne_cases h
  · exact hAll
  · intro x hx
    rcases List.mem_append.mp hx with hx | hx
    · exact hAll x (by simp [hx])
    · rcases List.mem_cons.mp hx with rfl | hx
      · exact hStep d hd (hAll d (by simp))
      · exact hAll x (by simp [hx])

/-- What the update leaves alone in one document, it leaves alone in the collection. -/
theorem map_updateOne [DecidableEq α] {f : α → β} {r : List α × Nat}
    (h : updateOne indexes p u c = some r) (hu : ∀ d, p d = true → f (u d) = f d) :
    r.1.map f = c.map f := by
  obtain ⟨-, rfl⟩ | ⟨before, d, after, rfl, -, hd, -, rfl⟩ := updateOne_cases h
  · rfl
  · simp [hu d hd]

/-- An update that adds no key never fails. -/
theorem updateOne_keeps [DecidableEq α] (indexes : List (α → List κ)) (p : α → Bool)
    (h : ∀ d, ∀ keys ∈ indexes, ∀ k ∈ keys (u d), k ∈ keys d) (c : List α) :
    ∃ n, updateOne indexes p u c = some (updateFirst p u c, n) := by
  unfold updateOne
  cases hFound : c.find? p with
  | none => exact ⟨0, by rw [updateFirst_none (none_of_find hFound)]⟩
  | some d =>
    dsimp only
    rw [if_pos (admits_of_subset (h d))]
    exact ⟨_, rfl⟩

end

end Collection
