import Mathlib
import PixelShader.Proofs.Lane.Arithmetic
/-!
# The number that a lane stands for

A finite lane is exactly a rational number, its `magnitude` with a sign.  Said of that number, the conversions to
integers are its truncation (`toInt_eq_truncated`) and its rounding (`roundedPart_eq`).  Operations see the same number
(`seen_unpacked`), and when they round a result they do not pass a whole number of 24 bits (`rounded_of_le`): what was
below it stays at or below it.  So a lane from 0 to 1 that is multiplied by 255 is never rounded to more
(`toNatRounded_mul_channelMax_le`).
-/
namespace PixelShader.Lane

open Float.Model (Format UnpackedFloat)
open Float.Model.UnpackedFloat

variable {a : Lane}

/-! ## The exact number -/

def magnitude (a : Lane) : ℚ := a.significand * 2 ^ a.scale

def number (a : Lane) : ℚ := if a.isNegative then -a.magnitude else a.magnitude

theorem scale_eq (a : Lane) : a.scale = (Max.max a.exponent 1 : Nat) - 150 := rfl

theorem magnitude_nonneg (a : Lane) : 0 ≤ a.magnitude := by
  unfold magnitude
  positivity

theorem magnitude_of_le (h : 150 ≤ a.exponent) : a.magnitude = (a.significand <<< (a.exponent - 150) : Nat) := by
  have hscale : a.scale = (a.exponent - 150 : Nat) := by
    rw [scale_eq]
    omega
  rw [magnitude, hscale, zpow_natCast, Nat.shiftLeft_eq, Nat.cast_mul, Nat.cast_pow, Nat.cast_ofNat]

theorem magnitude_of_lt (h : ¬ 150 ≤ a.exponent) :
    a.magnitude = a.significand / (2 ^ (150 - Max.max a.exponent 1) : Nat) := by
  have hscale : a.scale = -(150 - Max.max a.exponent 1 : Nat) := by
    rw [scale_eq]
    omega
  rw [magnitude, hscale, zpow_neg, zpow_natCast, ← div_eq_mul_inv, Nat.cast_pow, Nat.cast_ofNat]

theorem floor_natCast_div (n k : Nat) : ⌊(n : ℚ) / (2 ^ k : Nat)⌋ = (n >>> k : Nat) := by
  rw [Rat.floor_natCast_div_natCast, Nat.shiftRight_eq_div_pow]
  rfl

theorem floor_natCast_div_add_half (n k : Nat) :
    ⌊(n : ℚ) / (2 ^ (k + 1) : Nat) + 1 / 2⌋ = ((n + 1 <<< k) >>> (k + 1) : Nat) := by
  have hhalf : (n : ℚ) / (2 ^ (k + 1) : Nat) + (1 / 2 : ℚ) = ((n + 1 <<< k : Nat) : ℚ) / (2 ^ (k + 1) : Nat) := by
    rw [Nat.one_shiftLeft, pow_succ]
    push_cast
    field_simp
  rw [hhalf, floor_natCast_div]

/-- **The integer part is that of the exact number.** -/
theorem wholePart_eq (a : Lane) : (a.wholePart : Int) = ⌊a.magnitude⌋ := by
  rw [wholePart]
  split
  · rename_i h
    rw [magnitude_of_le h, Int.floor_natCast]
  · rename_i h
    rw [magnitude_of_lt h, floor_natCast_div]

/-- **Rounding is to the nearest integer, and a half goes away from zero.** -/
theorem roundedPart_eq (a : Lane) : (a.roundedPart : Int) = ⌊a.magnitude + 1 / 2⌋ := by
  rw [roundedPart]
  split
  · rename_i h
    have hhalf : ⌊(1 / 2 : ℚ)⌋ = 0 := by norm_num
    rw [magnitude_of_le h, Int.floor_natCast_add, hhalf, add_zero]
  · rename_i h
    have hk : 150 - Max.max a.exponent 1 = (149 - Max.max a.exponent 1) + 1 := by omega
    rw [magnitude_of_lt h, hk, floor_natCast_div_add_half, ← hk]

/-- What a conversion to a signed integer of 64 bits is meant to give: the number without its fraction, or the end of
the range that it lies beyond, and 0 for a NaN. -/
def truncated (a : Lane) : Int :=
  if a.isNaN then 0
  else if a.isInfinite then if a.isNegative then -2 ^ 63 else 2 ^ 63 - 1
  else Max.max (-2 ^ 63) (Min.min (2 ^ 63 - 1) (if a.number < 0 then ⌈a.number⌉ else ⌊a.number⌋))

theorem wholePart_of_isInfinite (h : a.isInfinite = true) : a.wholePart = 2 ^ 128 := by
  rw [isInfinite, Bool.and_eq_true, beq_iff_eq, beq_iff_eq] at h
  rw [wholePart, significand, h.1, h.2]
  rfl

theorem truncation_number (a : Lane) :
    (if a.number < 0 then ⌈a.number⌉ else ⌊a.number⌋) =
      if a.isNegative then -(a.wholePart : Int) else a.wholePart := by
  have hpos := a.magnitude_nonneg
  rw [number, wholePart_eq]
  by_cases hs : a.isNegative = true
  · rw [if_pos hs, if_pos hs]
    split
    · exact Int.ceil_neg
    · -- a negative zero
      rename_i h
      have h0 : a.magnitude = 0 := by linarith
      rw [h0]
      rfl
  · rw [if_neg hs, if_neg hs, if_neg (not_lt.2 hpos)]

/-- **A conversion to an integer drops the fraction and saturates.** -/
theorem toInt_eq_truncated (a : Lane) : a.toInt = a.truncated := by
  have hmin : ∀ n m, Nat.min n m = Min.min n m := fun _ _ => rfl
  rw [toInt, truncated, truncation_number]
  by_cases hnan : a.isNaN = true
  · rw [if_pos hnan, if_pos hnan]
  rw [if_neg hnan, if_neg hnan]
  by_cases hinf : a.isInfinite = true
  · rw [if_pos hinf, wholePart_of_isInfinite hinf]
    rfl
  · rw [if_neg hinf, hmin, hmin]
    split <;> omega

theorem toNatRounded_le {n : Nat} (h : a.magnitude ≤ n) : a.toNatRounded ≤ n := by
  rw [toNatRounded]
  split
  · exact Nat.zero_le n
  · have hfloor : ⌊a.magnitude + 1 / 2⌋ < (n : Int) + 1 := by
      rw [Int.floor_lt]
      push_cast
      linarith
    rw [← roundedPart_eq] at hfloor
    omega

/-! ## What operations see of a lane -/

def sign (a : Lane) : Sign := if a.isNegative then .negative else .positive

theorem toNat_unpackExponent (a : Lane) :
    (@unpackExponent .binary32 a.bits.toBitVec).toNat = a.exponent := by
  rw [exponent_eq, ← Nat.shiftRight_eq_div_pow]
  rfl

theorem toNat_unpackMantissa (a : Lane) :
    (@unpackMantissa .binary32 a.bits.toBitVec).toNat = a.fraction := by
  rw [fraction_eq]
  rfl

theorem ofBitVec_unpackSign_bits (a : Lane) :
    Sign.ofBitVec (@unpackSign .binary32 a.bits.toBitVec) = a.sign := by
  have hbit : (@unpackSign .binary32 a.bits.toBitVec).toNat = a.bits.toNat / 2 ^ 31 := by
    have hlt := a.bits.toNat_lt
    show a.bits.toNat >>> 31 % 2 = _
    rw [Nat.shiftRight_eq_div_pow]
    omega
  have hneg := a.isNegative_iff
  have hzero : @unpackSign .binary32 a.bits.toBitVec = 0#1 ↔ ¬ a.isNegative = true := by
    rw [← BitVec.toNat_inj, hbit, BitVec.toNat_ofNat, hneg]
    omega
  rw [Sign.ofBitVec, sign]
  by_cases h : a.isNegative = true
  · rw [if_neg fun h0 => hzero.1 h0 h, if_pos h]
  · rw [if_pos (hzero.2 h), if_neg h]

/-- Reading a lane does not change what it stands for, though it forgets the payload of a NaN. -/
theorem unpacked_eq (a : Lane) : a.unpacked = UnpackedFloat.unpack .binary32 a.bits.toBitVec := by
  show UnpackedFloat.unpack .binary32
    (UnpackedFloat.pack .binary32 (UnpackedFloat.unpack .binary32 a.bits.toBitVec)) = _
  rw [pack_unpack _ (by decide)]
  split
  · rename_i h
    rw [isNaNBits, decide_eq_true_eq] at h
    rw [unpack_packedNaN, UnpackedFloat.unpack]
    simp only [h.1, h.2, if_true, if_false]
  · rfl

theorem unpackExponent_eq_ones : @unpackExponent .binary32 a.bits.toBitVec = -1#8 ↔ a.exponent = 255 := by
  rw [← toNat_unpackExponent, ← BitVec.toNat_inj]
  rfl

theorem unpackExponent_eq_zero : @unpackExponent .binary32 a.bits.toBitVec = 0#8 ↔ a.exponent = 0 := by
  rw [← toNat_unpackExponent, ← BitVec.toNat_inj]
  rfl

theorem unpackMantissa_eq_zero : @unpackMantissa .binary32 a.bits.toBitVec = 0#23 ↔ a.fraction = 0 := by
  rw [← toNat_unpackMantissa, ← BitVec.toNat_inj]
  rfl

inductive Seen (a : Lane) : UnpackedFloat → Prop
  | nan : a.isNaN = true → Seen a .notANumber
  | infinity : a.isInfinite = true → Seen a (.infinity a.sign)
  | zero : a.significand = 0 → Seen a (.zero a.sign)
  | finite (h : 0 < a.significand) : a.exponent < 255 → Seen a (.finite a.sign a.significand a.scale h)

theorem Seen.of_eq {m : Nat} {e : Int} (hm : 0 < m) (he : a.exponent < 255) (hsig : m = a.significand)
    (hscale : e = a.scale) : a.Seen (.finite a.sign m e hm) := by
  subst hsig hscale
  exact .finite hm he

/-- **Operations see the number that a lane stands for.** -/
theorem seen_unpacked (a : Lane) : a.Seen a.unpacked := by
  have hexp := a.exponent_lt
  have hbias : (Format.binary32.exponentBias : Int) + Format.binary32.mantissaBitsWithoutImplicit = 150 := rfl
  rw [unpacked_eq, UnpackedFloat.unpack]
  simp only [ofBitVec_unpackSign_bits, toNat_unpackExponent, hbias]
  split
  · rename_i h255
    rw [unpackExponent_eq_ones] at h255
    split
    · rename_i hf
      exact .infinity (by rw [isInfinite, h255, unpackMantissa_eq_zero.1 hf]; rfl)
    · rename_i hf
      rw [unpackMantissa_eq_zero] at hf
      exact .nan (by rw [isNaN, h255]; simpa using hf)
  · rename_i h255
    rw [unpackExponent_eq_ones] at h255
    split
    · rename_i h0
      rw [unpackExponent_eq_zero] at h0
      have hsig : a.significand = a.fraction := if_pos h0
      split
      · rename_i hf
        exact .zero (by rw [hsig, unpackMantissa_eq_zero.1 hf])
      · exact .of_eq _ (by omega) (by rw [hsig, toNat_unpackMantissa]) (by rw [scale_eq]; omega)
    · rename_i h0
      rw [unpackExponent_eq_zero] at h0
      have hsig : a.significand = 0x800000 + a.fraction := if_neg h0
      exact .of_eq _ (by omega) (by rw [hsig, ← toNat_unpackMantissa]; exact toNat_one_append _)
        (by rw [scale_eq]; omega)

theorem lt_eq (a b : Lane) : a.lt b = UnpackedFloat.lt a.unpacked b.unpacked := by
  rw [lt, Bool.eq_iff_iff, decide_eq_true_eq]
  show decide (a.value.toModel < b.value.toModel) = true ↔ _
  rw [decide_eq_true_eq]
  rfl

theorem unpacked_zero : zero.unpacked = .zero .positive := rfl

theorem unpacked_one : one.unpacked = .finite .positive 0x800000 (-23) (by decide) := rfl

theorem unpacked_channelMax : channelMax.unpacked = .finite .positive 0xff0000 (-16) (by decide) := rfl

/-! ## Rounding below a whole number -/

/-- What rounding may leave of a number up to a bound: a zero, or 24 bits that do not pass the bound. -/
inductive Rounded (bound : ℚ) : UnpackedFloat → Prop
  | zero : Rounded bound (.zero .positive)
  | finite {r : Nat} {e : Int} (hr : 0 < r) : r < 2 ^ 24 → -149 ≤ e → r * 2 ^ e ≤ bound →
      Rounded bound (.finite .positive r e hr)

/-- Once rounded, a significand loses at most the bit that rounding carried into, which is zero. -/
theorem shiftToTargetExponent_rounded {r : Nat} {e : Int} (hr : r ≤ 2 ^ 24) (he : -149 ≤ e) :
    ∃ em e', shiftToTargetExponent .binary32 r e .exact = (em, e') ∧ em.mantissa < 2 ^ 24 ∧ -149 ≤ e' ∧
      (em.mantissa : ℚ) * 2 ^ e' = r * 2 ^ e := by
  rcases Nat.lt_or_eq_of_le hr with hlt | rfl
  · have hlog : r.log2 ≤ 23 := by
      by_cases h0 : r = 0
      · rw [h0]
        decide
      · exact Nat.lt_succ_iff.1 ((Nat.log2_lt h0).2 hlt)
    refine ⟨_, _, shiftToTargetExponent_exact (k := 0) (by omega), ?_⟩
    rw [Nat.pow_zero, ofQuotient_eq Nat.one_pos, Nat.div_one, Int.natCast_zero, add_zero]
    exact ⟨hlt, he, rfl⟩
  · have hlog : (2 ^ 24).log2 = 24 := by decide
    refine ⟨_, _, shiftToTargetExponent_exact (k := 1) (by rw [hlog]; omega), ?_⟩
    rw [ofQuotient_eq (by decide)]
    refine ⟨by decide, by omega, ?_⟩
    rw [zpow_add₀ two_ne_zero]
    show ((2 ^ 24 / 2 ^ 1 : Nat) : ℚ) * (2 ^ e * 2 ^ (1 : Int)) = ((2 ^ 24 : Nat) : ℚ) * 2 ^ e
    norm_num
    ring

theorem log2_add_lt {m n : Nat} {e : Int} (hm : m ≠ 0) (hn : n < 2 ^ 24) (h : (m : ℚ) * 2 ^ e ≤ n) :
    (m.log2 : Int) + e < 24 := by
  have hpow : (2 : ℚ) ^ ((m.log2 : Int) + e) < 2 ^ (24 : Int) :=
    calc (2 : ℚ) ^ ((m.log2 : Int) + e) = 2 ^ m.log2 * 2 ^ e := by rw [zpow_add₀ two_ne_zero, zpow_natCast]
      _ ≤ m * 2 ^ e := by
        have hself : (2 : ℚ) ^ m.log2 ≤ m := by exact_mod_cast Nat.log2_self_le hm
        gcongr
      _ ≤ n := h
      _ < 2 ^ (24 : Int) := by exact_mod_cast hn
  exact (zpow_lt_zpow_iff_right₀ one_lt_two).1 hpow

/-- **Rounding does not pass a whole number of 24 bits.** -/
theorem rounded_of_le {m n : Nat} {e : Int} (hm : 2 ^ 23 ≤ m) (hn : n < 2 ^ 24) (h : (m : ℚ) * 2 ^ e ≤ n) :
    Rounded n (roundWithAccuracy .binary32 .positive m e .exact) := by
  have hm0 : m ≠ 0 := by
    have := Nat.two_pow_pos 23
    omega
  have hlog : 23 ≤ m.log2 := (Nat.le_log2 hm0).2 hm
  have htop := log2_add_lt hm0 hn h
  -- `k` bits are shifted out, and the rest counts units of `2 ^ -j`, of which `n` is a whole number
  obtain ⟨k, hk⟩ : ∃ k : Nat, Max.max ((m.log2 : Int) - 23 + e) (-149) - e = k := Int.eq_ofNat_of_zero_le (by omega)
  obtain ⟨j, hj⟩ : ∃ j : Nat, e + k = -j := ⟨(-(e + k)).toNat, by omega⟩
  have hfirst := shiftToTargetExponent_exact (m := m) (e := e) (k := k) (by rw [hk, Int.toNat_natCast])
  have hwide : roundDiv m (2 ^ k) ≤ 2 ^ 24 := by
    refine roundDiv_le (Nat.two_pow_pos k) (Nat.le_of_lt (Nat.lt_of_lt_of_le Nat.lt_log2_self ?_))
    rw [← Nat.pow_add]
    exact Nat.pow_le_pow_right (by decide) (by omega)
  have hbound : roundDiv m (2 ^ k) ≤ n * 2 ^ j := by
    refine roundDiv_le (Nat.two_pow_pos k) ?_
    have hle : (m : ℚ) ≤ n * 2 ^ j * 2 ^ k :=
      calc (m : ℚ) = m * 2 ^ e * 2 ^ (-e) := by rw [mul_assoc, ← zpow_add₀ two_ne_zero]; simp
        _ ≤ n * 2 ^ (-e) := by gcongr
        _ = n * 2 ^ j * 2 ^ k := by
          rw [show -e = (j : Int) + k by omega, zpow_add₀ two_ne_zero, zpow_natCast, zpow_natCast, mul_assoc]
    exact_mod_cast hle
  obtain ⟨em, e', hsecond, hlt, he', hvalue⟩ := shiftToTargetExponent_rounded hwide (show -149 ≤ e + k by omega)
  rw [roundWithAccuracy, hfirst]
  simp only [roundedMantissa_ofQuotient, hsecond]
  split
  · exact .zero
  · rename_i hne
    refine .finite (Nat.pos_of_ne_zero hne) hlt he' ?_
    have hle : (roundDiv m (2 ^ k) : ℚ) ≤ n * 2 ^ j := by exact_mod_cast hbound
    calc (em.mantissa : ℚ) * 2 ^ e' = (roundDiv m (2 ^ k) : ℚ) * 2 ^ (e + k) := hvalue
      _ ≤ n * 2 ^ j * 2 ^ (e + k) := by gcongr
      _ = n := by rw [hj, zpow_neg, zpow_natCast, mul_assoc, mul_inv_cancel₀ (by positivity), mul_one]

/-! ## Packing what was rounded -/

theorem fields_of_toNat {x f : Nat} (hx : x < 256) (hf : f < 2 ^ 23) (h : a.bits.toNat = x * 0x800000 + f) :
    a.exponent = x ∧ a.fraction = f := by
  rw [exponent_eq, fraction_eq, h]
  omega

theorem toNat_bits_ofUnpacked (u : UnpackedFloat) :
    (ofUnpacked u).bits.toNat = (UnpackedFloat.pack .binary32 u).toNat := rfl

theorem magnitude_ofUnpacked_le {r : Nat} {e : Int} (hr : 0 < r) (hlt : r < 2 ^ 24) (hlo : -149 ≤ e) (hhi : e < 24) :
    (ofUnpacked (.finite .positive r e hr)).magnitude ≤ r * 2 ^ e := by
  have hbias : (e + Format.binary32.exponentBias + Format.binary32.mantissaBitsWithoutImplicit).toNat =
      (e + 150).toNat := by
    show (e + (127 : Nat) + (23 : Nat)).toNat = _
    omega
  have hbits := toNat_bits_ofUnpacked (.finite .positive r e hr)
  simp only [UnpackedFloat.pack, hbias] at hbits
  rw [if_neg (show ¬ 256 ≤ (e + 150).toNat + 1 by omega)] at hbits
  split at hbits
  · rename_i hlog
    change r.log2 + 1 = 24 at hlog
    obtain ⟨hle, -⟩ := (Nat.log2_eq_iff (Nat.ne_of_gt hr)).1 (show r.log2 = 23 by omega)
    rw [toNat_packComponents (by omega)] at hbits
    obtain ⟨hx, hf⟩ := fields_of_toNat (by omega) (BitVec.isLt _) hbits
    rw [BitVec.toNat_ofNat] at hf
    have hsig : (ofUnpacked (.finite .positive r e hr)).significand = r := by
      rw [significand, hx, hf, if_neg (by omega)]
      omega
    have hscale : (ofUnpacked (.finite .positive r e hr)).scale = e := by
      rw [scale_eq, hx]
      omega
    rw [magnitude, hsig, hscale]
  · rename_i hlog
    change ¬ r.log2 + 1 = 24 at hlog
    have hsmall : r < 2 ^ 23 := by
      have hlog24 := (Nat.log2_lt (Nat.ne_of_gt hr)).2 hlt
      exact (Nat.log2_lt (Nat.ne_of_gt hr)).1 (by omega)
    change _ = (packComponents .binary32 .positive (BitVec.ofNat 8 0) (BitVec.ofNat 23 r)).toNat at hbits
    rw [toNat_packComponents (by omega)] at hbits
    obtain ⟨hx, hf⟩ := fields_of_toNat (by omega) (BitVec.isLt _) hbits
    rw [BitVec.toNat_ofNat] at hf
    have hsig : (ofUnpacked (.finite .positive r e hr)).significand = r := by
      rw [significand, hx, hf, if_pos rfl, Nat.mod_eq_of_lt hsmall]
    have hscale : (ofUnpacked (.finite .positive r e hr)).scale ≤ e := by
      rw [scale_eq, hx]
      omega
    rw [magnitude, hsig]
    gcongr
    exact one_le_two

theorem Rounded.magnitude_le {n : Nat} {u : UnpackedFloat} (h : Rounded n u) (hn : n < 2 ^ 24) :
    (ofUnpacked u).magnitude ≤ n := by
  cases h with
  | zero =>
    have h0 : (ofUnpacked (.zero .positive)).magnitude = 0 := by
      rw [magnitude, show (ofUnpacked (.zero .positive)).significand = 0 from rfl, Nat.cast_zero, zero_mul]
    rw [h0]
    exact Nat.cast_nonneg n
  | finite hr hlt he hle =>
    have htop := log2_add_lt (Nat.ne_of_gt hr) hn hle
    exact le_trans (magnitude_ofUnpacked_le hr hlt he (by omega)) hle

/-! ## Levels -/

theorem magnitude_le_one (h0 : 0 < a.significand)
    (h : UnpackedFloat.lt (.finite .positive 0x800000 (-23) (by decide)) (.finite .positive a.significand a.scale h0)
      = false) : a.magnitude ≤ 1 := by
  have hsig := a.significand_lt
  have hcompare : (compare (-23) a.scale).then (compare 0x800000 a.significand) ≠ .lt := by
    intro hlt
    simp only [UnpackedFloat.lt, UnpackedFloat.compare, hlt] at h
    cases h
  rcases Int.lt_trichotomy (-23) a.scale with hlt | heq | hgt
  · rw [Int.compare_eq_lt.2 hlt] at hcompare
    exact absurd rfl hcompare
  · have hle : a.significand ≤ 0x800000 := by
      by_contra hgt
      rw [Int.compare_eq_eq.2 heq, Nat.compare_eq_lt.2 (by omega)] at hcompare
      exact hcompare rfl
    have hle' : (a.significand : ℚ) ≤ 0x800000 := by exact_mod_cast hle
    calc a.magnitude ≤ 0x800000 * 2 ^ (-23 : Int) := by rw [magnitude, ← heq]; gcongr
      _ = 1 := by norm_num
  · have hle : (a.significand : ℚ) ≤ 2 ^ 24 := by exact_mod_cast Nat.le_of_lt hsig
    have hpow : (2 : ℚ) ^ a.scale ≤ 2 ^ (-24 : Int) := zpow_le_zpow_right₀ one_le_two (by omega)
    calc a.magnitude ≤ 2 ^ 24 * 2 ^ (-24 : Int) := by rw [magnitude]; gcongr
      _ = 1 := by norm_num

/-- **A lane from 0 to 1 makes 255 levels at most**, whatever its bits. -/
theorem toNatRounded_mul_channelMax_le (hlow : a.lt zero = false) (hhigh : one.lt a = false) :
    (a * channelMax).toNatRounded ≤ 255 := by
  have hseen := a.seen_unpacked
  rw [lt_eq, unpacked_zero] at hlow
  rw [lt_eq, unpacked_one] at hhigh
  rw [mul_def, unpacked_channelMax]
  generalize a.unpacked = u at hseen hlow hhigh ⊢
  cases hseen with
  | nan => decide
  | infinity =>
    revert hlow hhigh
    generalize a.sign = s
    cases s <;> decide
  | zero =>
    generalize a.sign = s
    cases s <;> decide
  | finite h0 =>
    generalize a.sign = s at hlow hhigh ⊢
    cases s with
    | negative => cases hlow
    | positive =>
      have hone := magnitude_le_one h0 hhigh
      have hexact : ((a.significand * 0xff0000 : Nat) : ℚ) * 2 ^ (a.scale + -16) ≤ (255 : Nat) := by
        calc ((a.significand * 0xff0000 : Nat) : ℚ) * 2 ^ (a.scale + -16) = a.magnitude * 255 := by
              rw [magnitude, zpow_add₀ two_ne_zero]
              push_cast
              norm_num
              ring
          _ ≤ (255 : Nat) := by
              push_cast
              linarith
      have hround := rounded_of_le (by omega) (by decide) hexact
      exact toNatRounded_le (hround.magnitude_le (by decide))

theorem clamp_bounds (a : Lane) : (a.clamp zero one).lt zero = false ∧ one.lt (a.clamp zero one) = false := by
  have hraised : (if a.lt zero then zero else a).lt zero = false := by
    split
    · decide
    · rename_i h
      simpa using h
  simp only [clamp]
  generalize (if a.lt zero then zero else a) = raised at hraised ⊢
  split
  · decide
  · rename_i h
    exact ⟨hraised, by simpa using h⟩

end PixelShader.Lane
