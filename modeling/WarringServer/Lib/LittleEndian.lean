import Mathlib.Data.List.Basic
import Mathlib.Tactic.Ring
import Mathlib.Tactic.NormNum

/-!
# Little-endian images of fixed-width integers

What `memcpy` of an unsigned integer produces and reads back on a little-endian
machine: `encode w n` is the `w`-byte image of `n` (higher bits are lost, as in
a conversion to a `w`-byte type), `decode` reads the bytes back.

* `decode_encode` — reading back gives the value modulo `256 ^ w`;
* `decodeMany_encodeMany` — an array of integers is read back from the front of
  whatever it was written in front of.
-/

namespace LittleEndian

/-- The `w` low-order bytes of `n`, least significant first. -/
def encode : Nat → Nat → List UInt8
  | 0, _ => []
  | w + 1, n => UInt8.ofNat n :: encode w (n / 256)

/-- The integer whose little-endian image is the given byte string. -/
def decode : List UInt8 → Nat
  | [] => 0
  | b :: bs => b.toNat + 256 * decode bs

@[simp] theorem encode_length (w n : Nat) : (encode w n).length = w := by
  induction w generalizing n with
  | zero => rfl
  | succ w ih => simp [encode, ih]

/-- Reading an image back loses exactly the bits above the width. -/
theorem decode_encode (w n : Nat) : decode (encode w n) = n % 256 ^ w := by
  induction w generalizing n with
  | zero => simp [encode, decode, Nat.mod_one]
  | succ w ih =>
    have hByte : (UInt8.ofNat n).toNat = n % 256 := by simp
    calc decode (encode (w + 1) n)
        = n % 256 + 256 * (n / 256 % 256 ^ w) := by rw [encode, decode, ih, hByte]
      _ = n % (256 * 256 ^ w) := (Nat.mod_mul).symm
      _ = n % 256 ^ (w + 1) := by rw [pow_succ']

theorem decode_encode_of_lt {w n : Nat} (h : n < 256 ^ w) : decode (encode w n) = n := by
  rw [decode_encode, Nat.mod_eq_of_lt h]

theorem decode_lt (bs : List UInt8) : decode bs < 256 ^ bs.length := by
  induction bs with
  | nil => simp [decode]
  | cons b bs ih =>
    have hb : b.toNat < 256 := b.toNat_lt
    rw [decode, List.length_cons, pow_succ]
    omega

-- ---------------------------------------------------------------------------
-- Arrays
-- ---------------------------------------------------------------------------

/-- The images of the elements one after another. -/
def encodeMany (w : Nat) (ns : List Nat) : List UInt8 := ns.flatMap (encode w)

/-- The first `n` integers of width `w` in a byte string. -/
def decodeMany (w : Nat) : Nat → List UInt8 → List Nat
  | 0, _ => []
  | n + 1, bs => decode (bs.take w) :: decodeMany w n (bs.drop w)

@[simp] theorem encodeMany_nil (w : Nat) : encodeMany w [] = [] := rfl

@[simp] theorem encodeMany_cons (w n : Nat) (ns : List Nat) :
    encodeMany w (n :: ns) = encode w n ++ encodeMany w ns := rfl

@[simp] theorem encodeMany_length (w : Nat) (ns : List Nat) :
    (encodeMany w ns).length = ns.length * w := by
  induction ns with
  | nil => simp
  | cons n ns ih => rw [encodeMany_cons, List.length_append, encode_length, ih, List.length_cons,
      Nat.succ_mul, Nat.add_comm]

@[simp] theorem decodeMany_length (w n : Nat) (bs : List UInt8) :
    (decodeMany w n bs).length = n := by
  induction n generalizing bs with
  | zero => rfl
  | succ n ih => rw [decodeMany, List.length_cons, ih]

/-- An array is read back, whatever follows it. -/
theorem decodeMany_encodeMany {w : Nat} {ns : List Nat} (h : ∀ n ∈ ns, n < 256 ^ w)
    (rest : List UInt8) : decodeMany w ns.length (encodeMany w ns ++ rest) = ns := by
  induction ns with
  | nil => rfl
  | cons n ns ih =>
    -- the first image is as wide as what is read
    have hFront : (encode w n ++ (encodeMany w ns ++ rest)).take w = encode w n :=
      List.take_left' (encode_length w n)
    have hBack : (encode w n ++ (encodeMany w ns ++ rest)).drop w = encodeMany w ns ++ rest :=
      List.drop_left' (encode_length w n)
    rw [List.length_cons, encodeMany_cons, List.append_assoc, decodeMany, hFront, hBack,
      decode_encode_of_lt (h n (by simp)), ih fun m hm => h m (by simp [hm])]

end LittleEndian
