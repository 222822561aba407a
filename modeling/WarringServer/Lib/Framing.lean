import Mathlib.Data.List.Basic
import Mathlib.Data.List.Infix
import Mathlib.Tactic.Common

/-!
# Length-prefixed framing of a stream

A format announces the length of a whole frame in a header of fixed size. A
receiver holds the part of the stream that has arrived and not been consumed, and
cuts frames off its front.

* `takeFront` — taking a given number of items off the stream, all or none;
* `next_of_prefix` — while what the receiver holds is a prefix of a sequence of
  well-formed frames, every frame it cuts off is the next frame of the sequence;
* `Drained` — nothing the receiver holds could be cut off now or is stuck
  forever.
-/

namespace Framing

/-- The first `len` items of a stream and the rest, once there are `len` of them;
until then nothing is taken. -/
def takeFront {α : Type*} (len : Nat) (xs : List α) : List α × List α :=
  if len ≤ xs.length then (xs.take len, xs.drop len) else ([], xs)

theorem takeFront_of_le {α : Type*} {len : Nat} {xs : List α} (h : len ≤ xs.length) :
    takeFront len xs = (xs.take len, xs.drop len) := if_pos h

theorem takeFront_of_lt {α : Type*} {len : Nat} {xs : List α} (h : xs.length < len) :
    takeFront len xs = ([], xs) := if_neg (by omega)

/-- Taking from a stream whose beginning is already long enough. -/
theorem takeFront_append {α : Type*} {len : Nat} {xs : List α} (h : len ≤ xs.length)
    (ys : List α) : takeFront len (xs ++ ys) = (xs.take len, xs.drop len ++ ys) := by
  rw [takeFront_of_le (by rw [List.length_append]; omega), List.take_append_of_le_length h,
    List.drop_append_of_le_length h]

/-- A format: the header size, and the length of the whole frame as the header
announces it. Only the header is looked at. -/
structure Format (α : Type*) where
  header : Nat
  declared : List α → Nat
  declared_append : ∀ xs ys, header ≤ xs.length → declared (xs ++ ys) = declared xs

variable {α : Type*} (F : Format α)

/-- A frame whose header announces its own length. -/
structure WellFormed (m : List α) : Prop where
  header_le : F.header ≤ m.length
  declared_eq : F.declared m = m.length

/-- The frame at the front of the stream and what follows it, once the frame has
arrived completely. A frame cannot be shorter than its header. -/
def next (xs : List α) : Option (List α × List α) :=
  if F.header ≤ xs.length ∧ F.header ≤ F.declared xs ∧ F.declared xs ≤ xs.length then
    some (xs.take (F.declared xs), xs.drop (F.declared xs))
  else
    none

/-- Nothing waits: the header is incomplete, or the frame it announces is. -/
def Drained (xs : List α) : Prop :=
  xs.length < F.header ∨ xs.length < F.declared xs

instance (xs : List α) : Decidable (Drained F xs) :=
  inferInstanceAs (Decidable (_ ∨ _))

variable {F}

/-- Cutting a frame off splits the stream. -/
theorem next_append {xs f rest : List α} (h : next F xs = some (f, rest)) :
    xs = f ++ rest := by
  unfold next at h
  split at h
  · rw [Option.some.injEq, Prod.mk.injEq] at h
    rw [← h.1, ← h.2, List.take_append_drop]
  · exact absurd h (by simp)

/-- The frame that is cut off announced at least its header. -/
theorem next_declared {xs f rest : List α} (h : next F xs = some (f, rest)) :
    F.header ≤ F.declared xs := by
  unfold next at h
  split at h
  · rename_i hFits
    exact hFits.2.1
  · exact absurd h (by simp)

/-- A stream whose header announces a possible length and that has no complete
frame is drained. -/
theorem drained_of_next_none {xs : List α} (h : next F xs = none)
    (hHeader : F.header ≤ xs.length → F.header ≤ F.declared xs) : Drained F xs := by
  unfold next at h
  unfold Drained
  split at h
  · exact absurd h (by simp)
  · rename_i hNot
    -- a header and its frame, both there, would have been cut off
    by_contra hCon
    push Not at hCon
    exact hNot ⟨hCon.1, hHeader hCon.1, hCon.2⟩

/-- Nothing can be cut off a stream on which nothing waits. -/
theorem next_of_drained {xs : List α} (h : Drained F xs) : next F xs = none := by
  unfold next
  rw [if_neg]
  rintro ⟨hHeader, -, hFits⟩
  rcases h with hShort | hShort <;> omega

theorem drained_nil (hPos : 0 < F.header) : Drained F [] := Or.inl (by simpa using hPos)

/-- A well-formed frame in front is cut off. -/
theorem next_wellFormed {m : List α} (hm : WellFormed F m) (xs : List α) :
    next F (m ++ xs) = some (m, xs) := by
  have hDecl : F.declared (m ++ xs) = m.length := by
    rw [F.declared_append m xs hm.header_le, hm.declared_eq]
  have hHeader := hm.header_le
  unfold next
  rw [hDecl, if_pos (by rw [List.length_append]; omega), List.take_left, List.drop_left]

/-- **The next frame of the sequence is the one that is cut off**, as long as the
stream received so far is a prefix of the sequence. -/
theorem next_of_prefix {m : List α} {ms : List (List α)} {xs f rest : List α}
    (hm : WellFormed F m) (hPre : xs <+: (m :: ms).flatten)
    (h : next F xs = some (f, rest)) : f = m ∧ rest <+: ms.flatten := by
  unfold next at h
  split at h
  · rename_i hFits
    obtain ⟨hHeader, -, hLe⟩ := hFits
    obtain ⟨tail, hTail⟩ := hPre
    rw [List.flatten_cons] at hTail
    -- the header of `xs` is the header of `m`
    have hDecl : F.declared xs = m.length := by
      rw [← F.declared_append xs tail hHeader, hTail,
        F.declared_append m ms.flatten hm.header_le, hm.declared_eq]
    rw [hDecl, Option.some.injEq, Prod.mk.injEq] at h
    rw [hDecl] at hLe
    -- `xs` reaches past `m`, so cutting there is cutting `m` off
    have hTake : (xs ++ tail).take m.length = m := by rw [hTail, List.take_left]
    have hDrop : (xs ++ tail).drop m.length = ms.flatten := by rw [hTail, List.drop_left]
    rw [List.take_append_of_le_length hLe] at hTake
    rw [List.drop_append_of_le_length hLe] at hDrop
    exact ⟨h.1.symm.trans hTake, ⟨tail, by rw [← h.2]; exact hDrop⟩⟩
  · exact absurd h (by simp)

/-- No frame can be cut off an exhausted sequence. -/
theorem next_of_prefix_nil {xs : List α} (hPos : 0 < F.header)
    (hPre : xs <+: ([] : List (List α)).flatten) : next F xs = none := by
  -- nothing has arrived, not even a header
  have hNil : xs = [] := List.prefix_nil.mp hPre
  rw [hNil]
  exact next_of_drained (drained_nil hPos)

end Framing
