import Mathlib
import PixelShader.Lane.Integer
import PixelShader.Proofs.Lane.Fields
import PixelShader.Proofs.Lane.Nearest
/-!
# Lane arithmetic is exact arithmetic, rounded once

Positive lanes are counted here in units of `2 ^ -40`, so that sums, products and quotients of them are natural numbers
or quotients of such.  `ofUnits m` is the lane of `m` units, if 24 bits hold `m` (`Representable`).  Behind each operation
stands one rounding of an exact quotient (`ofUnpacked_round`), and said in units it is `roundDiv` or `nearest`:
`ofUnits_add`, `ofUnits_mul`, `ofUnits_div`.  Numbers too small or too large for units do not occur.
-/
namespace PixelShader.Lane

open Float.Model (Format UnpackedFloat)
open Float.Model.UnpackedFloat

/-- The lane with a given significand, one unit of which is `2 ^ i` times `2 ^ -40`. -/
def scaled (m i : Nat) : Lane := ⟨UInt32.ofNat ((110 + i) * 0x800000 + (m - 0x800000))⟩

/-- The significand has its leading bit, and the exponent is in the range considered. -/
structure Normal (m i : Nat) : Prop where
  le : 0x800000 ≤ m
  lt : m < 0x1000000
  exponent_le : i ≤ 78

/-! ## Fields of the pattern -/

def unpacked (a : Lane) : UnpackedFloat := a.value.toModel.unpack

def ofUnpacked (u : UnpackedFloat) : Lane := ofValue (.ofModel (.pack u))

theorem add_def (a b : Lane) : a + b = ofUnpacked (UnpackedFloat.add .binary32 a.unpacked b.unpacked) := rfl

theorem mul_def (a b : Lane) : a * b = ofUnpacked (UnpackedFloat.mul .binary32 a.unpacked b.unpacked) := rfl

theorem div_def (a b : Lane) : a / b = ofUnpacked (UnpackedFloat.div .binary32 a.unpacked b.unpacked) := rfl

theorem ofUInt32_def (n : UInt32) : ofUInt32 n = ofUnpacked (UnpackedFloat.ofNat .binary32 n.toNat) := rfl

theorem toNat_packComponents {x : Nat} (hx : x < 256) (v : BitVec 23) :
    (packComponents .binary32 .positive (BitVec.ofNat 8 x) v).toNat = x * 0x800000 + v.toNat := by
  unfold packComponents
  rw [BitVec.toNat_append, BitVec.toNat_append, ← Nat.shiftLeft_add_eq_or_of_lt (BitVec.isLt _),
    ← Nat.shiftLeft_add_eq_or_of_lt (BitVec.isLt _), BitVec.toNat_ofNat, Nat.mod_eq_of_lt hx]
  show (0 <<< 8 + x) <<< 23 + v.toNat = _
  rw [Nat.zero_shiftLeft, Nat.zero_add, Nat.shiftLeft_eq]

theorem toNat_one_append (v : BitVec 23) : (1#1 ++ v).toNat = 0x800000 + v.toNat := by
  rw [BitVec.toNat_append, ← Nat.shiftLeft_add_eq_or_of_lt v.isLt]
  rfl

section
variable {m i : Nat} {e : Int}

theorem Normal.log2_eq (h : Normal m i) : m.log2 = 23 :=
  (Nat.log2_eq_iff (by have := h.le; omega)).2 ⟨h.le, h.lt⟩

theorem pack_normal (h : Normal m i) (he : e = i - 40) (hm : 0 < m) :
    UnpackedFloat.pack .binary32 (.finite .positive m e hm) =
      packComponents .binary32 .positive (BitVec.ofNat 8 (110 + i)) (BitVec.ofNat 23 m) := by
  have hi := h.exponent_le
  have hbias : (e + Format.binary32.exponentBias + Format.binary32.mantissaBitsWithoutImplicit).toNat = 110 + i := by
    show (e + (127 : Nat) + (23 : Nat)).toNat = 110 + i
    omega
  simp only [UnpackedFloat.pack, h.log2_eq, hbias]
  rw [if_neg (by omega), if_pos (show 23 + 1 = Format.binary32.mantissaBits from rfl)]

theorem ofUnpacked_normal (h : Normal m i) (he : e = i - 40) (hm : 0 < m) :
    ofUnpacked (.finite .positive m e hm) = scaled m i := by
  obtain ⟨hlo, hhi, hi⟩ := h
  show Lane.mk (UInt32.ofBitVec (UnpackedFloat.pack .binary32 (.finite .positive m e hm))) = _
  rw [pack_normal ⟨hlo, hhi, hi⟩ he hm, scaled, Lane.mk.injEq]
  apply UInt32.toNat_inj.1
  show (packComponents .binary32 .positive (BitVec.ofNat 8 (110 + i)) (BitVec.ofNat 23 m)).toNat = _
  rw [toNat_packComponents (by omega), BitVec.toNat_ofNat, UInt32.toNat_ofNat_of_lt' (by rw [UInt32.size]; omega)]
  omega

theorem unpack_pack_normal (h : Normal m i) (he : e = i - 40) (hm : 0 < m) :
    UnpackedFloat.unpack .binary32 (UnpackedFloat.pack .binary32 (.finite .positive m e hm)) =
      .finite .positive m e hm := by
  obtain ⟨hlo, hhi, hi⟩ := h
  have hx : (BitVec.ofNat 8 (110 + i)).toNat = 110 + i := by
    rw [BitVec.toNat_ofNat, Nat.mod_eq_of_lt (by omega)]
  have hones : BitVec.ofNat 8 (110 + i) ≠ -1#8 := fun h => by
    have h255 := congrArg BitVec.toNat h
    rw [hx] at h255
    change 110 + i = 255 at h255
    omega
  have hzero : BitVec.ofNat 8 (110 + i) ≠ 0#8 := fun h => by
    have h0 := congrArg BitVec.toNat h
    rw [hx] at h0
    change 110 + i = 0 at h0
    omega
  have hmant : (1#1 ++ BitVec.ofNat 23 m).toNat = m := by
    rw [toNat_one_append, BitVec.toNat_ofNat]
    omega
  have hexp : ((110 + i : Nat) : Int) -
      (Format.binary32.exponentBias + Format.binary32.mantissaBitsWithoutImplicit) = e := by
    show ((110 + i : Nat) : Int) - ((127 : Nat) + (23 : Nat)) = e
    omega
  rw [pack_normal ⟨hlo, hhi, hi⟩ he hm]
  simp only [UnpackedFloat.unpack, unpackMantissa_packComponents, unpackExponent_packComponents,
    unpackSign_packComponents, Sign.ofBitVec_toBitVec]
  rw [if_neg hones, if_neg hzero]
  simp only [hmant, hx, hexp]

theorem unpacked_scaled (h : Normal m i) (hm : 0 < m) : (scaled m i).unpacked = .finite .positive m ((i : Int) - 40) hm := by
  rw [← ofUnpacked_normal h rfl hm]
  -- the lane keeps the packed bits, and to read them packs and unpacks once more
  show UnpackedFloat.unpack .binary32 (UnpackedFloat.pack .binary32 (UnpackedFloat.unpack .binary32
    (UnpackedFloat.pack .binary32 (.finite .positive m ((i : Int) - 40) hm)))) = _
  rw [unpack_pack_normal h rfl hm, unpack_pack_normal h rfl hm]

theorem scaled_carry (i : Nat) : scaled 0x1000000 i = scaled 0x800000 (i + 1) := by
  rw [scaled, scaled, Lane.mk.injEq]
  exact congrArg UInt32.ofNat (by omega)

end

/-! ## One rounding -/

/-- A quotient with the two bits that tell how it is rounded. -/
def ofQuotient (n d : Nat) : ExtendedMantissa := .ofMantissaAndAccuracy (n / d) (accuracyOfFraction (n % d) d)

section
variable {d : Nat}

theorem ofQuotient_eq (hd : 0 < d) (n : Nat) : ofQuotient n d =
    ⟨n / d, decide (d ≤ 2 * (n % d)), decide (n % d ≠ 0 ∧ 2 * (n % d) ≠ d)⟩ := by
  unfold ofQuotient accuracyOfFraction
  by_cases h0 : n % d = 0
  · simp [h0, ExtendedMantissa.ofMantissaAndAccuracy, Nat.ne_of_gt hd]
  · rw [if_neg h0]
    rcases Nat.lt_trichotomy (2 * (n % d)) d with h | h | h
    · rw [Nat.compare_eq_lt.2 h]
      simp [ExtendedMantissa.ofMantissaAndAccuracy, h0, h, Nat.ne_of_lt h]
    · rw [Nat.compare_eq_eq.2 h]
      simp [ExtendedMantissa.ofMantissaAndAccuracy, h]
    · rw [Nat.compare_eq_gt.2 h]
      simp [ExtendedMantissa.ofMantissaAndAccuracy, h0, Nat.le_of_lt h, Nat.ne_of_gt h]

theorem shiftRightOne_ofQuotient (hd : 0 < d) (n : Nat) :
    (ofQuotient n d).shiftRightOne = ofQuotient n (d * 2) := by
  have hmod : n % (d * 2) = n % d + d * (n / d % 2) := Nat.mod_mul
  have hr := Nat.mod_lt n hd
  rw [ofQuotient_eq hd, ofQuotient_eq (by omega), ExtendedMantissa.shiftRightOne, Nat.div_div_eq_div_mul]
  rcases Nat.mod_two_eq_zero_or_one (n / d) with hq | hq
  · rw [hq, Nat.mul_zero, Nat.add_zero] at hmod
    rw [hmod, hq]
    congr 1
    · simp
      omega
    · rw [Bool.eq_iff_iff]
      simp
      omega
  · rw [hq, Nat.mul_one] at hmod
    rw [hmod, hq]
    congr 1
    · simp
      omega
    · rw [Bool.eq_iff_iff]
      simp
      omega

theorem shiftRight_ofQuotient (hd : 0 < d) (n k : Nat) : ofQuotient n d >>> k = ofQuotient n (d * 2 ^ k) := by
  show k.repeat ExtendedMantissa.shiftRightOne (ofQuotient n d) = _
  induction k with
  | zero =>
    rw [Nat.pow_zero, Nat.mul_one]
    rfl
  | succ k ih =>
    rw [Nat.repeat, ih, shiftRightOne_ofQuotient (Nat.mul_pos hd (Nat.two_pow_pos k)), Nat.mul_assoc, ← Nat.pow_succ]

theorem roundedMantissa_ofQuotient (n d : Nat) : (ofQuotient n d).roundedMantissa = roundDiv n d := by
  have hacc : ∀ m a, (ExtendedMantissa.ofMantissaAndAccuracy m a).roundedMantissa = a.roundToNearestEven m := by
    intro m a
    cases a with
    | exact => rfl
    | inexact o => cases o <;> rfl
  rw [ofQuotient, hacc, accuracyOfFraction, roundDiv]
  by_cases h0 : n % d = 0
  · rw [if_pos h0, h0, Nat.mul_zero, if_neg (Nat.not_lt_zero d)]
    split
    · -- a divisor of zero
      rename_i hd
      rw [← hd, Nat.div_zero]
      rfl
    · rfl
  · rw [if_neg h0]
    rcases Nat.lt_trichotomy (2 * (n % d)) d with h | h | h
    · rw [Nat.compare_eq_lt.2 h, if_neg (by omega), if_neg (by omega)]
      rfl
    · rw [Nat.compare_eq_eq.2 h, if_neg (by omega), if_pos h]
      rfl
    · rw [Nat.compare_eq_gt.2 h, if_pos h]
      rfl

end

section
variable {n d k i : Nat} {e : Int}

theorem targetExponent_eq (m : Nat) (e : Int) :
    Format.binary32.targetExponent (Float.Model.totalExponent m e) = Max.max ((m.log2 : Int) - 23 + e) (-149) := by
  show Max.max ((m.log2 : Int) + 1 + e - (24 : Nat)) (3 - 2 ^ 7 - (24 : Nat)) = _
  omega

theorem shiftToTargetExponent_ofQuotient (hd : 0 < d)
    (hk : (Max.max (((n / d).log2 : Int) - 23 + e) (-149) - e).toNat = k) :
    shiftToTargetExponent .binary32 (n / d) e (accuracyOfFraction (n % d) d) =
      (ofQuotient n (d * 2 ^ k), e + k) := by
  rw [shiftToTargetExponent, targetExponent_eq]
  show (ofQuotient n d >>> (Max.max (((n / d).log2 : Int) - 23 + e) (-149) - e).toNat,
    e + ((Max.max (((n / d).log2 : Int) - 23 + e) (-149) - e).toNat : Int)) = _
  rw [hk, shiftRight_ofQuotient hd]

theorem shiftToTargetExponent_exact {m : Nat} (hk : (Max.max ((m.log2 : Int) - 23 + e) (-149) - e).toNat = k) :
    shiftToTargetExponent .binary32 m e .exact = (ofQuotient m (2 ^ k), e + k) := by
  have h := shiftToTargetExponent_ofQuotient (n := m) (e := e) (k := k) Nat.one_pos (by rwa [Nat.div_one])
  rwa [Nat.div_one, Nat.mod_one, Nat.one_mul] at h

theorem roundWithAccuracy_eq {m r : Nat} {a : Accuracy} {em : ExtendedMantissa} {e' : Int} (hr : 0 < r)
    (hfirst : shiftToTargetExponent .binary32 m e a = (em, e + k))
    (hsecond : shiftToTargetExponent .binary32 em.roundedMantissa (e + k) .exact = (⟨r, false, false⟩, e')) :
    roundWithAccuracy .binary32 .positive m e a = .finite .positive r e' hr := by
  rw [roundWithAccuracy, hfirst]
  simp only [hsecond]
  rw [dif_neg (Nat.ne_of_gt hr)]

/-- **A quotient of 24 bits and `k` more is rounded to its first 24 bits.** -/
theorem ofUnpacked_round (hd : 0 < d) (hlo : d * 2 ^ (23 + k) ≤ n) (hhi : n < d * 2 ^ (24 + k)) (he : e + k + 40 = i)
    (hk : k ≤ 100) (hi : i ≤ 77) :
    ofUnpacked (roundWithAccuracy .binary32 .positive (n / d) e (accuracyOfFraction (n % d) d)) =
      scaled (roundDiv n (d * 2 ^ k)) i := by
  have hdk : 0 < d * 2 ^ k := Nat.mul_pos hd (Nat.two_pow_pos k)
  have hlog : (n / d).log2 = 23 + k := by
    refine log2_eq ?_ ?_
    · rwa [Nat.le_div_iff_mul_le hd, Nat.mul_comm]
    · rwa [Nat.div_lt_iff_lt_mul hd, Nat.mul_comm, Nat.add_right_comm]
  have hfirst := shiftToTargetExponent_ofQuotient (e := e) (k := k) hd (by rw [hlog]; omega)
  have hrlo : 0x800000 ≤ roundDiv n (d * 2 ^ k) := by
    refine Nat.le_trans ?_ (div_le_roundDiv _ _)
    rw [Nat.le_div_iff_mul_le hdk, Nat.mul_left_comm]
    rwa [Nat.pow_add] at hlo
  have hrhi : roundDiv n (d * 2 ^ k) ≤ 0x1000000 := by
    refine Nat.le_trans (roundDiv_le_div_add_one _ _) ?_
    rw [Nat.succ_le_iff, Nat.div_lt_iff_lt_mul hdk, Nat.mul_left_comm]
    rwa [Nat.pow_add] at hhi
  -- rounding may carry into a bit of its own, which is shifted out again
  rcases Nat.lt_or_eq_of_le hrhi with hlt | heq
  · have hnormal : Normal (roundDiv n (d * 2 ^ k)) i := ⟨hrlo, hlt, by omega⟩
    have hsecond : shiftToTargetExponent .binary32 (ofQuotient n (d * 2 ^ k)).roundedMantissa (e + k) .exact =
        (⟨roundDiv n (d * 2 ^ k), false, false⟩, e + k) := by
      rw [roundedMantissa_ofQuotient, shiftToTargetExponent_exact (k := 0) (by rw [hnormal.log2_eq]; omega)]
      simp [ofQuotient_eq, Nat.mod_one]
    rw [roundWithAccuracy_eq (by omega) hfirst hsecond]
    exact ofUnpacked_normal hnormal (by omega) (by omega)
  · have hsecond : shiftToTargetExponent .binary32 (ofQuotient n (d * 2 ^ k)).roundedMantissa (e + k) .exact =
        (⟨0x800000, false, false⟩, e + k + (1 : Nat)) := by
      have hlog' : (0x1000000).log2 = 24 := by decide
      rw [roundedMantissa_ofQuotient, heq, shiftToTargetExponent_exact (k := 1) (by rw [hlog']; omega),
        ofQuotient_eq (by decide)]
      rfl
    rw [roundWithAccuracy_eq (by omega) hfirst hsecond, heq, scaled_carry]
    exact ofUnpacked_normal ⟨by omega, by omega, by omega⟩ (by omega) (by omega)

/-- **One rounding in units**: `n / d` times a power of two is `p / r` units. -/
theorem ofUnpacked_ratio {p r j b : Nat} (hd : 0 < d) (hr : 0 < r) (heq : n * 2 ^ j * r = p * 2 ^ b * d)
    (he : e + 40 + b = j) (hn : d * 2 ^ 23 ≤ n) (hlo : r * 2 ^ (23 + i) ≤ p) (hhi : p < r * 2 ^ (24 + i)) (hi : i ≤ 77)
    (hib : i + b ≤ 100) :
    ofUnpacked (roundWithAccuracy .binary32 .positive (n / d) e (accuracyOfFraction (n % d) d)) =
      scaled (roundDiv p (r * 2 ^ i)) i := by
  have hrj : 0 < 2 ^ j * r := Nat.mul_pos (Nat.two_pow_pos j) hr
  have hbd : 0 < 2 ^ b * d := Nat.mul_pos (Nat.two_pow_pos b) hd
  have heq' : n * (2 ^ j * r) = p * (2 ^ b * d) := by rw [← Nat.mul_assoc, heq, Nat.mul_assoc]
  have hji : j ≤ i + b := by
    have h : d * r * 2 ^ (23 + j) < d * r * 2 ^ (24 + (i + b)) :=
      calc d * r * 2 ^ (23 + j) = d * 2 ^ 23 * (2 ^ j * r) := by rw [Nat.pow_add]; ring
        _ ≤ n * (2 ^ j * r) := Nat.mul_le_mul_right _ hn
        _ = p * (2 ^ b * d) := heq'
        _ < r * 2 ^ (24 + i) * (2 ^ b * d) := Nat.mul_lt_mul_of_pos_right hhi hbd
        _ = d * r * 2 ^ (24 + (i + b)) := by rw [← Nat.add_assoc, Nat.pow_add _ (24 + i)]; ring
    have h' := (Nat.pow_lt_pow_iff_right (by omega)).1 (Nat.lt_of_mul_lt_mul_left h)
    omega
  obtain ⟨k, hk⟩ := Nat.exists_eq_add_of_le hji
  have hscale : ∀ t, d * 2 ^ (t + k) * (2 ^ j * r) = r * 2 ^ (t + i) * (2 ^ b * d) := by
    intro t
    have hpow : 2 ^ (t + k) * 2 ^ j = 2 ^ (t + i) * 2 ^ b := by
      rw [← Nat.pow_add, ← Nat.pow_add]
      congr 1
      omega
    calc d * 2 ^ (t + k) * (2 ^ j * r) = d * r * (2 ^ (t + k) * 2 ^ j) := by ring
      _ = r * 2 ^ (t + i) * (2 ^ b * d) := by rw [hpow]; ring
  have hlo' : d * 2 ^ (23 + k) ≤ n := by
    refine Nat.le_of_mul_le_mul_right ?_ hrj
    rw [hscale, heq']
    exact Nat.mul_le_mul_right _ hlo
  have hhi' : n < d * 2 ^ (24 + k) := by
    refine Nat.lt_of_mul_lt_mul_right (a := 2 ^ j * r) ?_
    rw [hscale, heq']
    exact Nat.mul_lt_mul_of_pos_right hhi hbd
  have hround : roundDiv n (d * 2 ^ k) = roundDiv p (r * 2 ^ i) := by
    have h0 := hscale 0
    rw [Nat.zero_add, Nat.zero_add] at h0
    rw [← roundDiv_mul_right hrj n, heq', h0, roundDiv_mul_right hbd]
  rw [ofUnpacked_round hd hlo' hhi' (i := i) (by omega) (by omega) hi, hround]

theorem ofUnpacked_exact {s p r j b : Nat} (hr : 0 < r) (heq : s * 2 ^ j * r = p * 2 ^ b) (he : e + 40 + b = j)
    (hs : 2 ^ 23 ≤ s) (hlo : r * 2 ^ (23 + i) ≤ p) (hhi : p < r * 2 ^ (24 + i)) (hi : i ≤ 77) (hib : i + b ≤ 100) :
    ofUnpacked (roundWithAccuracy .binary32 .positive s e .exact) = scaled (roundDiv p (r * 2 ^ i)) i := by
  have h := ofUnpacked_ratio (n := s) Nat.one_pos hr (by rwa [Nat.mul_one]) he (by rwa [Nat.one_mul]) hlo hhi hi hib
  rwa [Nat.div_one, Nat.mod_one] at h

theorem round_of_le {s : Nat} (hs : 2 ^ 23 ≤ s) (e : Int) :
    UnpackedFloat.round .binary32 .positive s e = roundWithAccuracy .binary32 .positive s e .exact := by
  have hlog : 23 ≤ s.log2 := (Nat.le_log2 (by have := Nat.two_pow_pos 23; omega)).2 hs
  have hzero : (e - Max.max ((s.log2 : Int) - 23 + e) (-149)).toNat = 0 := by omega
  rw [UnpackedFloat.round, targetExponent_eq]
  simp only [decreaseExponent, hzero, Nat.shiftLeft_zero, Int.natCast_zero, Int.sub_zero]

theorem round_of_lt (h0 : 0 < n) (hn : n < 2 ^ 24) :
    UnpackedFloat.round .binary32 .positive n 0 =
      roundWithAccuracy .binary32 .positive (n * 2 ^ (23 - n.log2)) ((n.log2 : Int) - 23) .exact := by
  have hlog : n.log2 < 24 := (Nat.log2_lt (Nat.ne_of_gt h0)).2 hn
  have htarget : Format.binary32.targetExponent (Float.Model.totalExponent n 0) = (n.log2 : Int) - 23 := by
    rw [targetExponent_eq]
    omega
  have hshift : ((0 : Int) - (n.log2 - 23)).toNat = 23 - n.log2 := by omega
  have hexp : (0 : Int) - (23 - n.log2 : Nat) = n.log2 - 23 := by omega
  rw [UnpackedFloat.round, htarget]
  simp only [decreaseExponent, hshift, hexp, Nat.shiftLeft_eq]

theorem normalize_pos {s : Nat} (hs : 0 < s) :
    normalize .binary32 (s : Int) e .positive = UnpackedFloat.round .binary32 .positive s e := by
  rw [UnpackedFloat.normalize, Int.compare_eq_gt.2 (by omega)]
  rfl

end

/-! ## Units -/

/-- The lane that is `m` times `2 ^ -40`. -/
def ofUnits (m : Nat) : Lane := scaled (m / lastBit m) (m.log2 - 23)

/-- `m` units are exactly a lane. -/
structure Representable (m : Nat) : Prop where
  fits : Fits m
  le : 2 ^ 23 ≤ m
  lt : m < 2 ^ 100

section
variable {m i : Nat}

theorem ofUnits_scaled (hlo : 0x800000 ≤ m) (hhi : m ≤ 0x1000000) (i : Nat) : ofUnits (m * 2 ^ i) = scaled m i := by
  have h : ∀ m i, 0x800000 ≤ m → m < 0x1000000 → ofUnits (m * 2 ^ i) = scaled m i := by
    intro m i hlo hhi
    have hlog : (m * 2 ^ i).log2 = 23 + i := by
      refine log2_eq ?_ ?_
      · rw [Nat.pow_add]
        exact Nat.mul_le_mul_right _ hlo
      · rw [Nat.add_right_comm, Nat.pow_add]
        exact Nat.mul_lt_mul_of_pos_right hhi (Nat.two_pow_pos i)
    rw [ofUnits, lastBit, hlog, Nat.add_sub_cancel_left, Nat.mul_div_cancel _ (Nat.two_pow_pos i)]
  rcases Nat.lt_or_eq_of_le hhi with hlt | rfl
  · exact h m i hlo hlt
  · rw [scaled_carry, ← h _ _ (by omega) (by omega), Nat.pow_succ']
    exact congrArg ofUnits (by omega)

theorem ofUnits_normal (h : Normal m i) : ofUnits (m * 2 ^ i) = scaled m i := ofUnits_scaled h.le (Nat.le_of_lt h.lt) i

theorem Representable.exists_normal (h : Representable m) : ∃ a i, Normal a i ∧ m = a * 2 ^ i := by
  obtain ⟨i, hlo, hhi⟩ := exists_bounds h.le
  have hpow := (Nat.pow_lt_pow_iff_right (a := 2) (by omega)).1 (Nat.lt_of_le_of_lt hlo h.lt)
  obtain ⟨a, rfl⟩ := h.fits i hlo
  rw [Nat.mul_comm, Nat.pow_add] at hlo hhi
  exact ⟨a, i, ⟨Nat.le_of_mul_le_mul_right hlo (Nat.two_pow_pos i), Nat.lt_of_mul_lt_mul_right hhi, by omega⟩,
    Nat.mul_comm _ _⟩

theorem ofUnits_nearest (hlo : 2 ^ (23 + i) ≤ m) (hhi : m < 2 ^ (24 + i)) :
    ofUnits (nearest m) = scaled (roundDiv m (2 ^ i)) i := by
  rw [nearest_eq hlo hhi, ofUnits_scaled (le_roundDiv_of_bounds hlo) (roundDiv_le_of_bounds hhi)]

end

/-! ## Operations -/

section
variable {a b : Nat}

theorem unpackedAdd_eq {m₁ m₂ i₁ i₂ j : Nat} (hj₁ : j ≤ i₁) (hj₂ : j ≤ i₂) (hj : j = i₁ ∨ j = i₂) (h₁ : 0 < m₁)
    (h₂ : 0 < m₂) :
    UnpackedFloat.add .binary32 (.finite .positive m₁ ((i₁ : Int) - 40) h₁) (.finite .positive m₂ ((i₂ : Int) - 40) h₂) =
      UnpackedFloat.round .binary32 .positive (m₁ * 2 ^ (i₁ - j) + m₂ * 2 ^ (i₂ - j)) ((j : Int) - 40) := by
  have hmin : Min.min ((i₁ : Int) - 40) ((i₂ : Int) - 40) = (j : Int) - 40 := by omega
  have hs₁ : ((i₁ : Int) - 40 - ((j : Int) - 40)).toNat = i₁ - j := by omega
  have hs₂ : ((i₂ : Int) - 40 - ((j : Int) - 40)).toNat = i₂ - j := by omega
  rw [← normalize_pos (Nat.add_pos_left (Nat.mul_pos h₁ (Nat.two_pow_pos _)) _)]
  simp only [UnpackedFloat.add, decreaseExponent, hmin, hs₁, hs₂, Sign.apply, Nat.shiftLeft_eq, Nat.cast_add]

/-- **A sum is rounded once.** -/
theorem ofUnits_add (ha : Representable a) (hb : Representable b) (hab : a + b < 2 ^ 100) :
    ofUnits a + ofUnits b = ofUnits (nearest (a + b)) := by
  obtain ⟨i, hlo, hhi⟩ := exists_bounds (Nat.le_trans ha.le (Nat.le_add_right a b))
  have hi := (Nat.pow_lt_pow_iff_right (a := 2) (by omega)).1 (Nat.lt_of_le_of_lt hlo hab)
  obtain ⟨m₁, i₁, h₁, rfl⟩ := ha.exists_normal
  obtain ⟨m₂, i₂, h₂, rfl⟩ := hb.exists_normal
  have hpos₁ : 0 < m₁ := Nat.lt_of_lt_of_le (by decide) h₁.le
  have hpos₂ : 0 < m₂ := Nat.lt_of_lt_of_le (by decide) h₂.le
  obtain ⟨j, hj₁, hj₂, hj⟩ : ∃ j, j ≤ i₁ ∧ j ≤ i₂ ∧ (j = i₁ ∨ j = i₂) := ⟨Min.min i₁ i₂, by omega⟩
  have hsum : (m₁ * 2 ^ (i₁ - j) + m₂ * 2 ^ (i₂ - j)) * 2 ^ j = m₁ * 2 ^ i₁ + m₂ * 2 ^ i₂ := by
    rw [Nat.add_mul, Nat.mul_assoc, Nat.mul_assoc, ← Nat.pow_add, ← Nat.pow_add, Nat.sub_add_cancel hj₁,
      Nat.sub_add_cancel hj₂]
  have hbase : 2 ^ 23 ≤ m₁ * 2 ^ (i₁ - j) + m₂ * 2 ^ (i₂ - j) :=
    Nat.le_trans h₁.le (Nat.le_trans (Nat.le_mul_of_pos_right m₁ (Nat.two_pow_pos _)) (Nat.le_add_right _ _))
  rw [ofUnits_nearest hlo hhi, ofUnits_normal h₁, ofUnits_normal h₂, add_def, unpacked_scaled h₁ hpos₁,
    unpacked_scaled h₂ hpos₂, unpackedAdd_eq hj₁ hj₂ hj, round_of_le hbase,
    ofUnpacked_exact (r := 1) (b := 0) Nat.one_pos (by rw [hsum, Nat.mul_one, Nat.pow_zero, Nat.mul_one]) (by omega) hbase
      (by rwa [Nat.one_mul]) (by rwa [Nat.one_mul]) (by omega) (by omega), Nat.one_mul]

theorem ofUnits_mul (ha : Representable a) (hb : Representable b) {i : Nat} (hlo : 2 ^ 40 * 2 ^ (23 + i) ≤ a * b)
    (hhi : a * b < 2 ^ 40 * 2 ^ (24 + i)) (hi : i ≤ 60) :
    ofUnits a * ofUnits b = scaled (roundDiv (a * b) (2 ^ 40 * 2 ^ i)) i := by
  obtain ⟨m₁, i₁, h₁, rfl⟩ := ha.exists_normal
  obtain ⟨m₂, i₂, h₂, rfl⟩ := hb.exists_normal
  have hpos₁ : 0 < m₁ := Nat.lt_of_lt_of_le (by decide) h₁.le
  have hpos₂ : 0 < m₂ := Nat.lt_of_lt_of_le (by decide) h₂.le
  have hbase : 2 ^ 23 ≤ m₁ * m₂ := Nat.le_trans h₁.le (Nat.le_mul_of_pos_right m₁ hpos₂)
  have heq : m₁ * m₂ * 2 ^ (i₁ + i₂) * 2 ^ 40 = m₁ * 2 ^ i₁ * (m₂ * 2 ^ i₂) * 2 ^ 40 := by
    rw [Nat.pow_add]
    ring
  rw [ofUnits_normal h₁, ofUnits_normal h₂, mul_def, unpacked_scaled h₁ hpos₁, unpacked_scaled h₂ hpos₂]
  exact ofUnpacked_exact (e := (i₁ : Int) - 40 + ((i₂ : Int) - 40)) (Nat.two_pow_pos 40) heq (by omega) hbase hlo hhi
    (by omega) (by omega)

theorem unpackedDiv_eq {m₁ m₂ i₁ i₂ : Nat} (h₁ : Normal m₁ i₁) (h₂ : Normal m₂ i₂) (hpos₁ : 0 < m₁) (hpos₂ : 0 < m₂) :
    UnpackedFloat.div .binary32 (.finite .positive m₁ ((i₁ : Int) - 40) hpos₁)
        (.finite .positive m₂ ((i₂ : Int) - 40) hpos₂) =
      roundWithAccuracy .binary32 .positive (m₁ * 2 ^ 24 / m₂) ((i₁ : Int) - i₂ - 24)
        (accuracyOfFraction (m₁ * 2 ^ 24 % m₂) m₂) := by
  have hi₂ := h₂.exponent_le
  have htarget : Format.binary32.targetExponent (Float.Model.totalExponent m₁ ((i₁ : Int) - 40) -
      Float.Model.totalExponent m₂ ((i₂ : Int) - 40)) = (i₁ : Int) - i₂ - 24 := by
    show Max.max ((m₁.log2 : Int) + 1 + (i₁ - 40) - (m₂.log2 + 1 + (i₂ - 40)) - (24 : Nat)) (3 - 2 ^ 7 - (24 : Nat)) = _
    rw [h₁.log2_eq, h₂.log2_eq]
    omega
  have hmin : Min.min ((i₁ : Int) - 40 - (i₂ - 40)) ((i₁ : Int) - i₂ - 24) = (i₁ : Int) - i₂ - 24 := by omega
  have hshift : ((i₁ : Int) - 40 - (i₂ - 40) - (i₁ - i₂ - 24)).toNat = 24 := by omega
  simp only [UnpackedFloat.div, divCore, htarget, hmin, hshift, Nat.shiftLeft_eq]
  rfl

theorem ofUnits_div (ha : Representable a) (hb : Representable b) {i : Nat} (hlo : b * 2 ^ (23 + i) ≤ a * 2 ^ 40)
    (hhi : a * 2 ^ 40 < b * 2 ^ (24 + i)) (hi : i ≤ 20) :
    ofUnits a / ofUnits b = scaled (roundDiv (a * 2 ^ 40) (b * 2 ^ i)) i := by
  obtain ⟨m₁, i₁, h₁, rfl⟩ := ha.exists_normal
  obtain ⟨m₂, i₂, h₂, rfl⟩ := hb.exists_normal
  have hpos₁ : 0 < m₁ := Nat.lt_of_lt_of_le (by decide) h₁.le
  have hpos₂ : 0 < m₂ := Nat.lt_of_lt_of_le (by decide) h₂.le
  have hbase : m₂ * 2 ^ 23 ≤ m₁ * 2 ^ 24 := by
    have := h₁.le
    have := h₂.lt
    omega
  have heq : m₁ * 2 ^ 24 * 2 ^ (i₁ + 16) * (m₂ * 2 ^ i₂) = m₁ * 2 ^ i₁ * 2 ^ 40 * 2 ^ i₂ * m₂ := by
    rw [Nat.pow_add]
    ring
  have hi₂ := h₂.exponent_le
  rw [ofUnits_normal h₁, ofUnits_normal h₂, div_def, unpacked_scaled h₁ hpos₁, unpacked_scaled h₂ hpos₂,
    unpackedDiv_eq h₁ h₂]
  exact ofUnpacked_ratio hpos₂ (Nat.mul_pos hpos₂ (Nat.two_pow_pos _)) heq (by omega) hbase hlo hhi (by omega) (by omega)

theorem two_eq : two = ofUnits (2 ^ 41) := by decide

theorem representable_two_pow {i : Nat} (hlo : 23 ≤ i) (hhi : i < 100) : Representable (2 ^ i) := by
  have hf := fits_mul_two_pow (a := 1) (by decide) i
  rw [Nat.one_mul] at hf
  exact ⟨hf, Nat.pow_le_pow_right (by omega) hlo, Nat.pow_lt_pow_right (by omega) hhi⟩

theorem ofUnits_half (ha : Representable a) (hlo : 2 ^ 24 ≤ a) (hhi : a < 2 ^ 44) :
    ofUnits a / two = ofUnits (a / 2) := by
  obtain ⟨m, i, h, rfl⟩ := ha.exists_normal
  have hi : 23 + i < 44 := by
    refine (Nat.pow_lt_pow_iff_right (a := 2) (by omega)).1 (Nat.lt_of_le_of_lt ?_ hhi)
    rw [Nat.pow_add]
    exact Nat.mul_le_mul_right _ h.le
  obtain ⟨j, rfl⟩ : ∃ j, i = j + 1 := by
    refine Nat.exists_eq_succ_of_ne_zero fun h0 => ?_
    have := h.lt
    rw [h0, Nat.pow_zero, Nat.mul_one] at hlo
    omega
  have hhalf : m * 2 ^ (j + 1) / 2 = m * 2 ^ j := by
    rw [Nat.pow_succ, ← Nat.mul_assoc, Nat.mul_div_cancel _ Nat.two_pos]
  have hexact : m * 2 ^ (j + 1) * 2 ^ 40 = m * (2 ^ 41 * 2 ^ j) := by
    rw [Nat.pow_succ]
    ring
  have hpow : ∀ t, 2 ^ 41 * 2 ^ (t + j) = 2 ^ t * (2 ^ 41 * 2 ^ j) := by
    intro t
    rw [Nat.pow_add]
    ring
  have hpos : 0 < 2 ^ 41 * 2 ^ j := Nat.mul_pos (Nat.two_pow_pos 41) (Nat.two_pow_pos j)
  have hdiv := ofUnits_div ha (representable_two_pow (i := 41) (by omega) (by omega)) (i := j)
    (by rw [hexact, hpow]; exact Nat.mul_le_mul_right _ h.le)
    (by rw [hexact, hpow]; exact Nat.mul_lt_mul_of_pos_right h.lt hpos) (by omega)
  rw [two_eq, hdiv, hexact, roundDiv_mul_left hpos, hhalf, ofUnits_scaled h.le (Nat.le_of_lt h.lt)]

end

/-! ## Whole numbers -/

theorem ofUInt32_eq {n : UInt32} (h0 : 0 < n.toNat) (hn : n.toNat < 2 ^ 24) :
    ofUInt32 n = ofUnits (n.toNat * 2 ^ 40) := by
  have hlog : n.toNat.log2 < 24 := (Nat.log2_lt (Nat.ne_of_gt h0)).2 hn
  have hle := Nat.log2_self_le (Nat.ne_of_gt h0)
  have hlt := @Nat.lt_log2_self n.toNat
  have hlo : 2 ^ (23 + (n.toNat.log2 + 17)) ≤ n.toNat * 2 ^ 40 := by
    rw [show 23 + (n.toNat.log2 + 17) = n.toNat.log2 + 40 by omega, Nat.pow_add]
    exact Nat.mul_le_mul_right _ hle
  have hhi : n.toNat * 2 ^ 40 < 2 ^ (24 + (n.toNat.log2 + 17)) := by
    rw [show 24 + (n.toNat.log2 + 17) = n.toNat.log2 + 1 + 40 by omega, Nat.pow_add]
    exact Nat.mul_lt_mul_of_pos_right hlt (by omega)
  have hbase : 2 ^ 23 ≤ n.toNat * 2 ^ (23 - n.toNat.log2) :=
    calc 2 ^ 23 = 2 ^ n.toNat.log2 * 2 ^ (23 - n.toNat.log2) := by rw [← Nat.pow_add]; congr 1; omega
      _ ≤ n.toNat * 2 ^ (23 - n.toNat.log2) := Nat.mul_le_mul_right _ hle
  have heq : n.toNat * 2 ^ (23 - n.toNat.log2) * 2 ^ (n.toNat.log2 + 17) * 1 = n.toNat * 2 ^ 40 * 2 ^ 0 := by
    rw [Nat.mul_one, Nat.pow_zero, Nat.mul_one, Nat.mul_assoc, ← Nat.pow_add]
    congr 2
    omega
  rw [← nearest_of_fits (fits_mul_two_pow (Nat.le_of_lt hn) 40), ofUnits_nearest hlo hhi, ofUInt32_def,
    UnpackedFloat.ofNat, UnpackedFloat.ofInt, normalize_pos h0, round_of_lt h0 hn,
    ofUnpacked_exact Nat.one_pos heq (by omega) hbase (by rwa [Nat.one_mul]) (by rwa [Nat.one_mul]) (by omega) (by omega),
    Nat.one_mul]

theorem ofUnits_mul_ofUInt32 {a : Nat} {n : UInt32} (ha : Representable a) (h0 : 0 < n.toNat) (hn : n.toNat < 2 ^ 24)
    (hlt : a * n.toNat < 2 ^ 80) : ofUnits a * ofUInt32 n = ofUnits (nearest (a * n.toNat)) := by
  have hn' : Representable (n.toNat * 2 ^ 40) :=
    ⟨fits_mul_two_pow (Nat.le_of_lt hn) 40, by omega, by omega⟩
  obtain ⟨i, hlo, hhi⟩ := exists_bounds (Nat.le_trans ha.le (Nat.le_mul_of_pos_right a h0))
  have hi : 23 + i < 80 := (Nat.pow_lt_pow_iff_right (a := 2) (by omega)).1 (Nat.lt_of_le_of_lt hlo hlt)
  have hmul : a * (n.toNat * 2 ^ 40) = a * n.toNat * 2 ^ 40 := (Nat.mul_assoc _ _ _).symm
  have hpos : 0 < 2 ^ 40 := Nat.two_pow_pos 40
  rw [ofUInt32_eq h0 hn, ofUnits_nearest hlo hhi, ofUnits_mul ha hn' (i := i)]
  · rw [hmul, Nat.mul_comm (2 ^ 40), roundDiv_mul_right hpos]
  · rw [hmul, Nat.mul_comm (2 ^ 40)]
    exact Nat.mul_le_mul_right _ hlo
  · rw [hmul, Nat.mul_comm (2 ^ 40)]
    exact Nat.mul_lt_mul_of_pos_right hhi hpos
  · omega

section
variable {m i : Nat}

theorem toNat_bits_scaled (h : Normal m i) : (scaled m i).bits.toNat = (110 + i) * 0x800000 + (m - 0x800000) := by
  obtain ⟨hlo, hhi, hi⟩ := h
  exact UInt32.toNat_ofNat_of_lt' (by rw [UInt32.size]; omega)

theorem exponent_scaled (h : Normal m i) : (scaled m i).exponent = 110 + i := by
  rw [exponent_eq, toNat_bits_scaled h]
  obtain ⟨hlo, hhi, hi⟩ := h
  omega

theorem fraction_scaled (h : Normal m i) : (scaled m i).fraction = m - 0x800000 := by
  rw [fraction_eq, toNat_bits_scaled h]
  obtain ⟨hlo, hhi, hi⟩ := h
  omega

theorem isNegative_scaled (h : Normal m i) : (scaled m i).isNegative = false := by
  rw [← Bool.not_eq_true, isNegative_iff, toNat_bits_scaled h]
  obtain ⟨hlo, hhi, hi⟩ := h
  omega

theorem wholePart_scaled (h : Normal m i) : (scaled m i).wholePart = m * 2 ^ i / 2 ^ 40 := by
  have hsig : (scaled m i).significand = m := by
    have hlo := h.le
    rw [significand, exponent_scaled h, fraction_scaled h, if_neg (by omega)]
    omega
  rw [wholePart, exponent_scaled h, hsig]
  split
  · obtain ⟨j, rfl⟩ := Nat.exists_eq_add_of_le (show 40 ≤ i by omega)
    rw [show 110 + (40 + j) - 150 = j by omega, Nat.shiftLeft_eq, Nat.pow_add, Nat.mul_left_comm,
      Nat.mul_div_cancel_left _ (Nat.two_pow_pos 40)]
  · obtain ⟨j, hj⟩ := Nat.exists_eq_add_of_le (show i ≤ 40 by omega)
    have hmax : Nat.max (110 + i) 1 = 110 + i := Nat.max_eq_left (by omega)
    rw [hmax, show 150 - (110 + i) = j by omega, Nat.shiftRight_eq_div_pow, hj, Nat.pow_add, Nat.mul_comm (2 ^ i),
      Nat.mul_div_mul_right _ _ (Nat.two_pow_pos i)]

/-- **The integer part of a lane is that of its units.** -/
theorem toInt_ofUnits (h : Representable m) : (ofUnits m).toInt = (m / 2 ^ 40 : Nat) := by
  have hlt := h.lt
  obtain ⟨a, i, hn, rfl⟩ := h.exists_normal
  have hi := hn.exponent_le
  have hnan : (scaled a i).isNaN = false := by
    have hne : (110 + i == 255) = false := beq_eq_false_iff_ne.2 (by omega)
    rw [isNaN, exponent_scaled hn, hne, Bool.false_and]
  have hmin : Nat.min (a * 2 ^ i / 2 ^ 40) 0x7fffffffffffffff = a * 2 ^ i / 2 ^ 40 := Nat.min_eq_left (by omega)
  rw [ofUnits_normal hn, toInt, hnan, isNegative_scaled hn, wholePart_scaled hn]
  simp only [Bool.false_eq_true, if_false, hmin]

end

end PixelShader.Lane
