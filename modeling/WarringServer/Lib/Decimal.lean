import Mathlib.Data.List.Basic
import Mathlib.Tactic.Ring
import Mathlib.Tactic.Tauto

/-!
# Decimal numbers as text

The decimal digits of a natural number as bytes of ASCII, most significant first, without
leading zeros.

* `value_text` — the number comes back from its text;
* `lt_iff_value_lt` — texts of the same length are in the order of their numbers;
* `append_lt_append_iff` — the first fields decide, unless they are the same;
* `append_cons_inj` — digits end where something else begins.
-/

namespace Decimal

/-- The byte is a digit. -/
def IsDigit (c : UInt8) : Prop := 48 ≤ c.toNat ∧ c.toNat ≤ 57

/-- The digits of the number. -/
def text (n : Nat) : List UInt8 := (Nat.toDigits 10 n).map fun c => UInt8.ofNat c.toNat

/-- The number of the digits, behind those of `n`. -/
def valueFrom (n : Nat) (l : List UInt8) : Nat := l.foldl (fun n c => 10 * n + (c.toNat - 48)) n

def value (l : List UInt8) : Nat := valueFrom 0 l

section

variable {n m : Nat} {l l' : List UInt8}

@[simp] theorem valueFrom_nil : valueFrom n [] = n := List.foldl_nil

@[simp] theorem valueFrom_cons {c : UInt8} :
    valueFrom n (c :: l) = valueFrom (10 * n + (c.toNat - 48)) l := List.foldl_cons

theorem valueFrom_eq : valueFrom n l = 10 ^ l.length * n + value l := by
  induction l generalizing n with
  | nil => simp [value]
  | cons c l ih =>
    rw [value, valueFrom_cons, valueFrom_cons, ih, ih (n := 10 * 0 + (c.toNat - 48)),
      List.length_cons, Nat.pow_succ]
    ring

theorem value_cons {c : UInt8} :
    value (c :: l) = 10 ^ l.length * (c.toNat - 48) + value l := by
  rw [value, valueFrom_cons, valueFrom_eq]
  simp

/-- A digit of a number, as a byte. -/
theorem toNat_of_isDigit {c : Char} (h : c.isDigit = true) :
    (UInt8.ofNat c.toNat).toNat = c.toNat ∧ 48 ≤ c.toNat ∧ c.toNat ≤ 57 := by
  obtain ⟨hLow, hHigh⟩ : 48 ≤ c.toNat ∧ c.toNat ≤ 57 := Char.isDigit_iff_toNat.mp h
  refine ⟨?_, hLow, hHigh⟩
  rw [UInt8.toNat_ofNat']
  omega

theorem isDigit_of_mem_text {c : UInt8} (h : c ∈ text n) : IsDigit c := by
  obtain ⟨ch, hMem, rfl⟩ := List.mem_map.mp h
  obtain ⟨hByte, hDigit⟩ :=
    toNat_of_isDigit (Nat.isDigit_of_mem_toDigits (by decide) (by decide) hMem)
  rw [IsDigit, hByte]
  exact hDigit

theorem text_ne_nil : text n ≠ [] := by
  simp [text, Nat.toDigits_ne_nil]

/-- The number comes back. -/
theorem value_text (n : Nat) : value (text n) = n := by
  have hChars : ∀ (cs : List Char) (k : Nat), (∀ c ∈ cs, c.isDigit = true) →
      valueFrom k (cs.map fun c => UInt8.ofNat c.toNat) = Nat.ofDigitChars 10 cs k := by
    intro cs
    induction cs with
    | nil => simp
    | cons c cs ih =>
      intro k hDigits
      obtain ⟨hByte, -⟩ := toNat_of_isDigit (hDigits c List.mem_cons_self)
      rw [List.map_cons, valueFrom_cons, hByte, Nat.ofDigitChars_cons,
        ih _ fun c hc => hDigits c (List.mem_cons_of_mem _ hc)]
      rfl
  rw [value, text, hChars _ _ fun c hc => Nat.isDigit_of_mem_toDigits (by decide) (by decide) hc,
    Nat.ofDigitChars_ten_toDigits]

theorem text_injective : Function.Injective text := by
  intro n m h
  rw [← value_text n, h, value_text]

/-- Digits stay below the next power of ten. -/
theorem value_lt (h : ∀ c ∈ l, IsDigit c) : value l < 10 ^ l.length := by
  induction l with
  | nil => simp [value]
  | cons c l ih =>
    have hRest := ih fun c hc => h c (List.mem_cons_of_mem _ hc)
    have hHead : c.toNat - 48 ≤ 9 := by
      have := (h c List.mem_cons_self).2
      omega
    have hScaled := Nat.mul_le_mul_left (10 ^ l.length) hHead
    rw [value_cons, List.length_cons, Nat.pow_succ]
    omega

/-- Texts of the same length are in the order of their numbers. -/
theorem lt_iff_value_lt (hLength : l.length = l'.length) (h : ∀ c ∈ l, IsDigit c)
    (h' : ∀ c ∈ l', IsDigit c) : l < l' ↔ value l < value l' := by
  induction l generalizing l' with
  | nil =>
    obtain rfl := List.length_eq_zero_iff.mp hLength.symm
    simp
  | cons c l ih =>
    obtain ⟨c', l', rfl⟩ := List.exists_cons_of_length_eq_add_one hLength.symm
    have hRest : l.length = l'.length := Nat.succ_inj.mp hLength
    have hDigits : ∀ c ∈ l, IsDigit c := fun c hc => h c (List.mem_cons_of_mem _ hc)
    have hDigits' : ∀ c ∈ l', IsDigit c := fun c hc => h' c (List.mem_cons_of_mem _ hc)
    have hLt : value l < 10 ^ l'.length := hRest ▸ value_lt hDigits
    have hLt' := value_lt hDigits'
    have hHead : 48 ≤ c.toNat := (h c List.mem_cons_self).1
    have hHead' : 48 ≤ c'.toNat := (h' c' List.mem_cons_self).1
    rw [List.cons_lt_cons_iff, ih hRest hDigits hDigits', value_cons, value_cons, hRest,
      UInt8.lt_iff_toNat_lt, ← UInt8.toNat_inj]
    -- the first digit decides, unless it is the same
    rcases Nat.lt_trichotomy c.toNat c'.toNat with hFirst | hFirst | hFirst
    · have hScaled := Nat.mul_le_mul_left (10 ^ l'.length)
        (show c.toNat - 48 + 1 ≤ c'.toNat - 48 by omega)
      rw [Nat.mul_add, Nat.mul_one] at hScaled
      exact iff_of_true (Or.inl hFirst) (by omega)
    · rw [hFirst]
      simp
    · have hScaled := Nat.mul_le_mul_left (10 ^ l'.length)
        (show c'.toNat - 48 + 1 ≤ c.toNat - 48 by omega)
      rw [Nat.mul_add, Nat.mul_one] at hScaled
      exact iff_of_false (by omega) (by omega)

/-- **A field of digits** is read off a text by what follows it. -/
theorem append_cons_inj {c : UInt8} {r r' : List UInt8} (hl : ∀ x ∈ l, IsDigit x)
    (hl' : ∀ x ∈ l', IsDigit x) (hc : ¬ IsDigit c) (h : l ++ c :: r = l' ++ c :: r') :
    l = l' ∧ r = r' := by
  induction l generalizing l' with
  | nil =>
    rcases l' with _ | ⟨x, l'⟩
    · exact ⟨rfl, (List.cons.inj h).2⟩
    · exact absurd ((List.cons.inj h).1 ▸ hl' x List.mem_cons_self) hc
  | cons x l ih =>
    rcases l' with _ | ⟨x', l'⟩
    · exact absurd ((List.cons.inj h).1 ▸ hl x List.mem_cons_self) hc
    · obtain ⟨rfl, hRest⟩ := List.cons.inj h
      obtain ⟨rfl, hSame⟩ := ih (fun y hy => hl y (List.mem_cons_of_mem _ hy))
        (fun y hy => hl' y (List.mem_cons_of_mem _ hy)) hRest
      exact ⟨rfl, hSame⟩

/-- Texts that begin with fields of the same length. -/
theorem append_lt_append_iff {r r' : List UInt8} (hLength : l.length = l'.length) :
    l ++ r < l' ++ r' ↔ l < l' ∨ l = l' ∧ r < r' := by
  induction l generalizing l' with
  | nil =>
    obtain rfl := List.length_eq_zero_iff.mp hLength.symm
    simp
  | cons c l ih =>
    obtain ⟨c', l', rfl⟩ := List.exists_cons_of_length_eq_add_one hLength.symm
    rw [List.cons_append, List.cons_append, List.cons_lt_cons_iff, List.cons_lt_cons_iff,
      ih (Nat.succ_inj.mp hLength), List.cons_eq_cons]
    tauto

end

end Decimal
