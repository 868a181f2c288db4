import Mathlib
import PixelShader.Lane.Integer
/-!
# A lane is its three fields

The sign, the exponent and the fraction as digits of the pattern read as a natural number, and the pattern back from
them.
-/
namespace PixelShader.Lane

variable {a b : Lane}

theorem exponent_eq (a : Lane) : a.exponent = a.bits.toNat / 2 ^ 23 % 2 ^ 8 := by
  show (a.bits >>> 23 &&& 0xff).toNat = _
  rw [UInt32.toNat_and, UInt32.toNat_shiftRight]
  show a.bits.toNat >>> 23 &&& 255 = _
  rw [Nat.shiftRight_eq_div_pow, Nat.and_two_pow_sub_one_eq_mod _ 8]

theorem fraction_eq (a : Lane) : a.fraction = a.bits.toNat % 2 ^ 23 := by
  show (a.bits &&& 0x7fffff).toNat = _
  rw [UInt32.toNat_and]
  exact Nat.and_two_pow_sub_one_eq_mod _ 23

theorem fraction_lt (a : Lane) : a.fraction < 2 ^ 23 := by
  rw [fraction_eq]
  exact Nat.mod_lt _ (by decide)

theorem exponent_lt (a : Lane) : a.exponent < 2 ^ 8 := by
  rw [exponent_eq]
  exact Nat.mod_lt _ (by decide)

theorem significand_lt (a : Lane) : a.significand < 2 ^ 24 := by
  have hf := a.fraction_lt
  unfold significand
  split <;> omega

theorem isNegative_iff (a : Lane) : a.isNegative = true ↔ 2 ^ 31 ≤ a.bits.toNat := by
  have hand : (a.bits &&& 0x80000000).toNat = 2 ^ 31 * (a.bits.toNat.testBit 31).toNat := by
    rw [UInt32.toNat_and]
    exact (Nat.and_two_pow _ 31).trans (Nat.mul_comm _ _)
  have hbit : a.bits.toNat.testBit 31 = true ↔ 2 ^ 31 ≤ a.bits.toNat := by
    have hlt := a.bits.toNat_lt
    rw [Nat.testBit_eq_decide_div_mod_eq, decide_eq_true_eq]
    omega
  rw [isNegative, bne_iff_ne, ne_eq, ← UInt32.toNat_inj, hand, ← hbit]
  cases a.bits.toNat.testBit 31 <;> simp

theorem eq_of_fields (hs : a.isNegative = b.isNegative) (he : a.exponent = b.exponent)
    (hf : a.fraction = b.fraction) : a = b := by
  have hsign : 2 ^ 31 ≤ a.bits.toNat ↔ 2 ^ 31 ≤ b.bits.toNat := by rw [← isNegative_iff, hs, isNegative_iff]
  have ha := a.bits.toNat_lt
  have hb := b.bits.toNat_lt
  rw [exponent_eq, exponent_eq] at he
  rw [fraction_eq, fraction_eq] at hf
  have hbits : a.bits.toNat = b.bits.toNat := by omega
  exact congrArg Lane.mk (UInt32.toNat_inj.1 hbits)

end PixelShader.Lane
