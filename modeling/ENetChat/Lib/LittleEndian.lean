import Mathlib.Algebra.Ring.Nat
import Mathlib.Tactic.Common

/-!
# Little-endian numbers

The bytes of a number, least significant first, in a fixed width. Encoding
and decoding are inverse up to the width's range.
-/

namespace ENetChat.LittleEndian

/-- The low `width` bytes of `n`. -/
def toLE : (width : Nat) → (n : Nat) → List UInt8
  | 0, _ => []
  | width + 1, n => UInt8.ofNat n :: toLE width (n / 256)

def fromLE : List UInt8 → Nat
  | [] => 0
  | b :: bs => b.toNat + 256 * fromLE bs

@[simp] theorem length_toLE : (toLE width n).length = width := by
  induction width generalizing n with
  | zero => rfl
  | succ width ih => simp [toLE, ih]

theorem fromLE_toLE : fromLE (toLE width n) = n % 256 ^ width := by
  induction width generalizing n with
  | zero => simp [toLE, fromLE, Nat.mod_one]
  | succ width ih =>
    rw [toLE, fromLE, ih, Nat.pow_succ', Nat.mod_mul]
    simp [UInt8.toNat_ofNat']

theorem fromLE_toLE_of_lt (h : n < 256 ^ width) : fromLE (toLE width n) = n := by
  rw [fromLE_toLE, Nat.mod_eq_of_lt h]

theorem fromLE_lt (bs : List UInt8) : fromLE bs < 256 ^ bs.length := by
  induction bs with
  | nil => simp [fromLE]
  | cons b bs ih =>
    have hb : b.toNat < 256 := b.toNat_lt
    simp only [fromLE, List.length_cons, Nat.pow_succ]
    omega

theorem toLE_fromLE (bs : List UInt8) : toLE bs.length (fromLE bs) = bs := by
  induction bs with
  | nil => rfl
  | cons b bs ih =>
    have hb : b.toNat < 256 := b.toNat_lt
    have hdiv : fromLE (b :: bs) / 256 = fromLE bs := by simp only [fromLE]; omega
    have hmod : UInt8.ofNat (fromLE (b :: bs)) = b := by
      apply UInt8.toNat_inj.mp
      simp only [fromLE, UInt8.toNat_ofNat']
      omega
    rw [List.length_cons, toLE, hdiv, hmod, ih]

theorem toLE_inj (hn : n < 256 ^ width) (hm : m < 256 ^ width) (h : toLE width n = toLE width m) :
    n = m := by
  rw [← fromLE_toLE_of_lt hn, h, fromLE_toLE_of_lt hm]

end ENetChat.LittleEndian
