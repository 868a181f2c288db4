import Mathlib
import PixelShader.Proofs.Drift
import PixelShader.Proofs.Lane.Arithmetic
import PixelShader.Proofs.Raster
import PixelShader.Texture.Sampler
/-!
# Which texel a coordinate selects

The coordinate of a pixel is carried along and multiplied by the size again when it is sampled.  `selected n k` is the
place along a side of `n` texels that comes of it.  For sizes up to 5858 it is `k` itself (`selectsOwn_of_le`); the next
size is the first at which the coordinates drift too far (`selected_drifted`).
-/
namespace PixelShader

open Lane (ofUnits Representable)

namespace Walk

/-- The texel that the coordinate of the `k`-th pixel selects along a side of `n`. -/
def selected (n : UInt32) (k : Nat) : UInt32 := texelIndex (along n k) n n

def SelectsOwn (n : UInt32) : Prop := ∀ k < n.toNat, selected n k = UInt32.ofNat k

/-! ## Coordinates in units -/

/-- The last bit of a share is this power of two. -/
def shareExponent (n : Nat) : Nat := 16 - (n - 1).log2

def shareUnits (n : Nat) : Nat := roundDiv 0x10000000000 (n * 2 ^ shareExponent n) * 2 ^ shareExponent n

section
variable {n : Nat}

theorem shareExponent_bounds (h2 : 2 ≤ n) (hn : n ≤ 2 ^ 13) :
    4 ≤ shareExponent n ∧ n * 2 ^ (23 + shareExponent n) ≤ 2 ^ 40 ∧ 2 ^ 40 < n * 2 ^ (24 + shareExponent n) := by
  have hne : n - 1 ≠ 0 := by omega
  have hlog : (n - 1).log2 < 13 := (Nat.log2_lt hne).2 (by omega)
  have hlo := Nat.log2_self_le hne
  have hhi := @Nat.lt_log2_self (n - 1)
  unfold shareExponent
  refine ⟨by omega, ?_, ?_⟩
  · calc n * 2 ^ (23 + (16 - (n - 1).log2)) ≤ 2 ^ ((n - 1).log2 + 1) * 2 ^ (23 + (16 - (n - 1).log2)) :=
          Nat.mul_le_mul_right _ (by omega)
      _ = 2 ^ 40 := by rw [← Nat.pow_add]; congr 1; omega
  · calc 2 ^ 40 = 2 ^ (n - 1).log2 * 2 ^ (24 + (16 - (n - 1).log2)) := by rw [← Nat.pow_add]; congr 1; omega
      _ < n * 2 ^ (24 + (16 - (n - 1).log2)) := Nat.mul_lt_mul_of_pos_right (by omega) (Nat.two_pow_pos _)

theorem roundDiv_share_bounds (h2 : 2 ≤ n) (hn : n ≤ 2 ^ 13) :
    0x800000 ≤ roundDiv 0x10000000000 (n * 2 ^ shareExponent n) ∧
      roundDiv 0x10000000000 (n * 2 ^ shareExponent n) ≤ 0x1000000 := by
  obtain ⟨-, hlo, hhi⟩ := shareExponent_bounds h2 hn
  have hpos : 0 < n * 2 ^ shareExponent n := Nat.mul_pos (by omega) (Nat.two_pow_pos _)
  constructor
  · refine Nat.le_trans ?_ (div_le_roundDiv _ _)
    rw [Nat.le_div_iff_mul_le hpos, Nat.mul_left_comm]
    rwa [Nat.pow_add] at hlo
  · refine Nat.le_trans (roundDiv_le_div_add_one _ _) ?_
    rw [Nat.succ_le_iff, Nat.div_lt_iff_lt_mul hpos, Nat.mul_left_comm]
    rwa [Nat.pow_add] at hhi

theorem shareUnits_bounds (h2 : 2 ≤ n) (hn : n ≤ 2 ^ 13) :
    2 ^ 27 ≤ shareUnits n ∧ shareUnits n < 2 ^ 41 ∧ Fits (shareUnits n) ∧ Fits (shareUnits n / 2) := by
  obtain ⟨hexp, -⟩ := shareExponent_bounds h2 hn
  obtain ⟨hlo, hhi⟩ := roundDiv_share_bounds h2 hn
  have hexp' : shareExponent n ≤ 16 := Nat.sub_le _ _
  refine ⟨?_, ?_, fits_mul_two_pow hhi _, ?_⟩
  · calc 2 ^ 27 = 0x800000 * 2 ^ 4 := rfl
      _ ≤ shareUnits n := Nat.mul_le_mul hlo (Nat.pow_le_pow_right (by omega) hexp)
  · calc shareUnits n ≤ 0x1000000 * 2 ^ 16 := Nat.mul_le_mul hhi (Nat.pow_le_pow_right (by omega) hexp')
      _ < 2 ^ 41 := by decide
  · obtain ⟨j, hj⟩ : ∃ j, shareExponent n = j + 1 := Nat.exists_eq_succ_of_ne_zero (by omega)
    rw [shareUnits]
    generalize roundDiv 0x10000000000 (n * 2 ^ shareExponent n) = r at hhi ⊢
    rw [hj, Nat.pow_succ, ← Nat.mul_assoc, Nat.mul_div_cancel _ Nat.two_pos]
    exact fits_mul_two_pow hhi j

end

section
variable {n : UInt32}

theorem one_eq : Lane.one = ofUnits (2 ^ 40) := by decide

theorem share_eq (h2 : 2 ≤ n.toNat) (hn : n.toNat ≤ 2 ^ 13) : share n = ofUnits (shareUnits n.toNat) := by
  obtain ⟨hexp, hlo, hhi⟩ := shareExponent_bounds h2 hn
  obtain ⟨hrlo, hrhi⟩ := roundDiv_share_bounds h2 hn
  have hexp' : shareExponent n.toNat ≤ 16 := Nat.sub_le _ _
  have hsize : Representable (n.toNat * 2 ^ 40) := ⟨fits_mul_two_pow (by omega) 40, by omega, by omega⟩
  have hswap : ∀ t, n.toNat * 2 ^ 40 * 2 ^ t = n.toNat * 2 ^ t * 2 ^ 40 := fun t => Nat.mul_right_comm _ _ _
  rw [share, one_eq, Lane.ofUInt32_eq (by omega) (by omega),
    Lane.ofUnits_div (Lane.representable_two_pow (by omega) (by omega)) hsize (i := shareExponent n.toNat)
      (by rw [hswap]; exact Nat.mul_le_mul_right _ hlo)
      (by rw [hswap]; exact Nat.mul_lt_mul_of_pos_right hhi (Nat.two_pow_pos 40)) (by omega),
    hswap, roundDiv_mul_right (Nat.two_pow_pos 40), shareUnits]
  exact (Lane.ofUnits_scaled hrlo hrhi _).symm

theorem centre_eq (h2 : 2 ≤ n.toNat) (hn : n.toNat ≤ 2 ^ 13) : centre n = ofUnits (shareUnits n.toNat / 2) := by
  obtain ⟨hlo, hhi, hf, -⟩ := shareUnits_bounds h2 hn
  rw [centre, share_eq h2 hn, Lane.ofUnits_half ⟨hf, by omega, by omega⟩ (by omega) (by omega)]

end

/-- A share is off by half of its last bit at most. -/
theorem shareUnits_mul_bounds {n : Nat} (h2 : 2 ≤ n) (hn : n ≤ 2 ^ 13) :
    2 ^ 40 ≤ shareUnits n * n + 2 ^ 16 ∧ shareUnits n * n ≤ 2 ^ 40 + 2 ^ 16 := by
  obtain ⟨-, hbit, -⟩ := shareExponent_bounds h2 hn
  have hpos : 0 < n * 2 ^ shareExponent n := Nat.mul_pos (by omega) (Nat.two_pow_pos _)
  have hunits : shareUnits n * n =
      roundDiv 0x10000000000 (n * 2 ^ shareExponent n) * (n * 2 ^ shareExponent n) := by
    rw [shareUnits, Nat.mul_assoc, Nat.mul_comm (2 ^ _)]
  have hbit' : n * 2 ^ shareExponent n ≤ 2 ^ 17 := by
    rw [Nat.pow_add, Nat.mul_left_comm] at hbit
    omega
  have hup := roundDiv_mul_le 0x10000000000 (n * 2 ^ shareExponent n)
  have hdown := le_roundDiv_mul hpos 0x10000000000
  rw [hunits]
  omega

section
variable {n : UInt32} {k : Nat}

theorem path_add_share_lt {n : Nat} (h2 : 2 ≤ n) (hn : n ≤ 2 ^ 13) (hk : k < n) :
    2 ^ 26 ≤ Drift.path (shareUnits n) k ∧ Drift.path (shareUnits n) k + shareUnits n < 2 ^ 41 := by
  obtain ⟨hlo, -⟩ := shareUnits_bounds h2 hn
  obtain ⟨-, htotal⟩ := shareUnits_mul_bounds h2 hn
  generalize shareUnits n = q at hlo htotal ⊢
  have hroom : ∀ k < n, k * (q + 2 ^ 16) + q ≤ 2 ^ 40 + 2 ^ 30 := by
    intro k hk
    have hmul : (k + 1) * (q + 2 ^ 16) ≤ n * (q + 2 ^ 16) := Nat.mul_le_mul_right _ hk
    rw [Nat.mul_add n, Nat.mul_comm n q, Nat.add_mul k 1, Nat.one_mul] at hmul
    omega
  have hrun : ∀ k < n, 2 ^ 26 ≤ Drift.path q k ∧ Drift.path q k ≤ q / 2 + k * (q + 2 ^ 16) := by
    intro k hk
    induction k with
    | zero =>
      rw [Drift.path]
      omega
    | succ k ih =>
      obtain ⟨hdown, hup⟩ := ih (by omega)
      have hk' := hroom k (by omega)
      have hq := hroom 0 (by omega)
      have hlt : Drift.path q k + q < 2 ^ (24 + 17) := by omega
      have h₁ := nearest_le hlt
      have h₂ := le_nearest hlt
      rw [Drift.path, Nat.add_mul, Nat.one_mul]
      omega
  obtain ⟨hdown, hup⟩ := hrun k hk
  have hk' := hroom k hk
  have hq := hroom 0 (by omega)
  omega

theorem representable_path (h2 : 2 ≤ n.toNat) (hn : n.toNat ≤ 2 ^ 13) (hk : k < n.toNat) :
    Representable (Drift.path (shareUnits n.toNat) k) := by
  obtain ⟨-, -, -, hf⟩ := shareUnits_bounds h2 hn
  obtain ⟨hlo, hhi⟩ := path_add_share_lt h2 hn hk
  exact ⟨Drift.fits_path hf k, by omega, by omega⟩

/-- **The coordinates are carried along in units.** -/
theorem along_eq (h2 : 2 ≤ n.toNat) (hn : n.toNat ≤ 2 ^ 13) (hk : k < n.toNat) :
    along n k = ofUnits (Drift.path (shareUnits n.toNat) k) := by
  induction k with
  | zero => exact centre_eq h2 hn
  | succ k ih =>
    obtain ⟨hlo, hhi, hf, -⟩ := shareUnits_bounds h2 hn
    obtain ⟨-, hsum⟩ := path_add_share_lt h2 hn (show k < n.toNat by omega)
    have hr := representable_path h2 hn (show k < n.toNat by omega)
    rw [along, ih (by omega), share_eq h2 hn, Lane.ofUnits_add hr ⟨hf, by omega, by omega⟩ (by omega)]
    rfl

theorem selected_eq (h2 : 2 ≤ n.toNat) (hn : n.toNat ≤ 2 ^ 13) (hk : k < n.toNat) :
    selected n k =
      UInt32.ofNat (min (nearest (Drift.path (shareUnits n.toNat) k * n.toNat) / 2 ^ 40) (n.toNat - 1)) := by
  obtain ⟨hlo, hhi⟩ := path_add_share_lt h2 hn hk
  have hr := representable_path h2 hn hk
  generalize hx : Drift.path (shareUnits n.toNat) k = x at hlo hhi hr
  have hmul : x * n.toNat ≤ 2 ^ 41 * 2 ^ 13 := Nat.mul_le_mul (by omega) hn
  have hmul' : x * 2 ≤ x * n.toNat := Nat.mul_le_mul_left x h2
  have hlt : x * n.toNat < 2 ^ (24 + 31) := by omega
  have hup := nearest_le hlt
  have hpos : 2 ^ 23 ≤ nearest (x * n.toNat) := by
    obtain ⟨j, hlo', hhi'⟩ := exists_bounds (show 2 ^ 23 ≤ x * n.toNat by omega)
    exact Nat.le_trans (Nat.pow_le_pow_right (by omega) (by omega)) (le_nearest_of_bounds hlo' hhi')
  have hmax : Nat.max n.toNat 1 = n.toNat := Nat.max_eq_left (by omega)
  rw [selected, texelIndex, along_eq h2 hn hk, hx, Lane.ofUnits_mul_ofUInt32 hr (by omega) (by omega) (by omega),
    Lane.toInt_ofUnits ⟨fits_nearest _, hpos, by omega⟩, Int.toNat_natCast, hmax]

end

/-! ## Sizes at which no coordinate drifts too far -/

section
variable {n : UInt32} {i : Nat}

theorem selectsOwn_of_stays (h2 : 2 ≤ n.toNat) (hn : n.toNat ≤ 2 ^ 13)
    (hs : Drift.Stays n.toNat (shareUnits n.toNat) i) (hi : 1 ≤ i) (hi' : i ≤ 16) : SelectsOwn n := by
  intro k hk
  obtain ⟨hlo, -, -, hf⟩ := shareUnits_bounds h2 hn
  obtain ⟨hlow, hhigh⟩ := hs.owns hi hi' (by omega) hf hk
  rw [selected_eq h2 hn hk]
  generalize Drift.path (shareUnits n.toNat) k * n.toNat = x at hlow hhigh ⊢
  have hlt : x < 2 ^ (24 + 29) := by omega
  have hup := nearest_le hlt
  have hdown := le_nearest hlt
  exact congrArg UInt32.ofNat (by omega)

theorem selectsOwn_one : SelectsOwn 1 := by
  intro k hk
  obtain rfl : k = 0 := Nat.lt_one_iff.1 hk
  rw [selected, texelIndex]
  exact congrArg UInt32.ofNat (Nat.min_eq_right (Nat.zero_le _))

theorem fares_undivided (cost : Nat → Nat → Nat) (q : Nat) :
    Drift.fares (Drift.way cost q 16) = cost (q - 0x8000) (q + 0x8000) * (0x10000000000 / (q - 0x8000)) := by
  have hfirst : ∀ h, (Drift.first cost q h).fare = cost (q - h / 2) (q + h / 2) * (0x1000000 * h / (q - h / 2)) := by
    intro h
    rw [Drift.Stretch.fare]
    exact Nat.zero_add _
  have hway : Drift.way cost q 16 = [Drift.first cost q 0x10000] := rfl
  rw [hway, Drift.fares, List.map_singleton, List.sum_singleton, hfirst]

/-- Where `n` errors of half a last bit are below half a part, the way need not be divided. -/
theorem stays_of_le {n : Nat} (h2 : 2 ≤ n) (hn : n ≤ 4000) : Drift.Stays n (shareUnits n) 16 := by
  obtain ⟨hq, -⟩ := shareUnits_bounds h2 (by omega)
  obtain ⟨hlo, hhi⟩ := shareUnits_mul_bounds h2 (by omega)
  generalize shareUnits n = q at hq hlo hhi ⊢
  have hless : n * (q - 0x8000) = q * n - n * 0x8000 := by rw [Nat.mul_sub, Nat.mul_comm n q]
  have hmore : n * (q + 0x8000) = q * n + n * 0x8000 := by rw [Nat.mul_add, Nat.mul_comm n q]
  have hhalf : q * n ≤ 2 * (q / 2 * n) + n ∧ 2 * (q / 2 * n) ≤ q * n := by
    have hodd : q ≤ 2 * (q / 2) + 1 ∧ 2 * (q / 2) ≤ q := by omega
    have h₁ := Nat.mul_le_mul_right n hodd.1
    have h₂ := Nat.mul_le_mul_right n hodd.2
    rw [Nat.add_mul, Nat.one_mul, Nat.mul_assoc] at h₁
    rw [Nat.mul_assoc] at h₂
    exact ⟨h₁, h₂⟩
  -- no more than `n` additions fit into the way, and each errs by `0x8000` at most
  have hcount : 0x10000000000 / (q - 0x8000) ≤ 4000 := by
    refine Nat.le_trans (Nat.le_of_lt_succ ((Nat.div_lt_iff_lt_mul (by omega)).2 ?_)) hn
    rw [Nat.succ_mul, hless]
    omega
  have hfare : ∀ toll, toll ≤ 0x10000 + n * 0x8000 →
      toll * (0x10000000000 / (q - 0x8000)) ≤ (0x10000 + 4000 * 0x8000) * 4000 := by
    intro toll htoll
    exact Nat.mul_le_mul (Nat.le_trans htoll (by omega)) hcount
  have hlose' : Drift.lose n (q - 0x8000) (q + 0x8000) ≤ 0x10000 + n * 0x8000 := by
    unfold Drift.lose
    omega
  have hgain' : Drift.gain n (q - 0x8000) (q + 0x8000) ≤ 0x10000 + n * 0x8000 := by
    unfold Drift.gain
    omega
  have hlose := hfare _ hlose'
  have hgain := hfare _ hgain'
  refine ⟨?_, ?_, ?_⟩
  · rw [fares_undivided]
    omega
  · rw [fares_undivided]
    omega
  · omega

theorem stays_middle : (List.range' 4001 1463).all (fun n => Drift.Stays n (shareUnits n) 14) = true := by decide +kernel

theorem stays_large : (List.range' 5464 395).all (fun n => Drift.Stays n (shareUnits n) 12) = true := by decide +kernel

/-- **Up to a size of 5858 every pixel selects its own texel.** -/
theorem selectsOwn_of_le (h0 : 0 < n) (hn : n ≤ 5858) : SelectsOwn n := by
  rw [UInt32.lt_iff_toNat_lt] at h0
  rw [UInt32.le_iff_toNat_le] at hn
  change 0 < n.toNat at h0
  change n.toNat ≤ 5858 at hn
  rcases Nat.lt_or_ge n.toNat 2 with h1 | h2
  · obtain rfl : n = 1 := UInt32.toNat_inj.1 (show n.toNat = 1 by omega)
    exact selectsOwn_one
  · have hstays : ∃ i, (1 ≤ i ∧ i ≤ 16) ∧ Drift.Stays n.toNat (shareUnits n.toNat) i := by
      by_cases hsmall : n.toNat ≤ 4000
      · exact ⟨16, by omega, stays_of_le h2 hsmall⟩
      by_cases hmiddle : n.toNat ≤ 5463
      · have hmem : n.toNat ∈ List.range' 4001 1463 := List.mem_range'_1.2 (by omega)
        exact ⟨14, by omega, of_decide_eq_true (List.all_eq_true.1 stays_middle _ hmem)⟩
      · have hmem : n.toNat ∈ List.range' 5464 395 := List.mem_range'_1.2 (by omega)
        exact ⟨12, by omega, of_decide_eq_true (List.all_eq_true.1 stays_large _ hmem)⟩
    obtain ⟨i, ⟨hi, hi'⟩, hs⟩ := hstays
    exact selectsOwn_of_stays h2 (by omega) hs hi hi'

/-- At the next size the additions near the end fall behind by more than half a texel. -/
theorem selected_drifted : selected 5859 5853 = 5852 := by
  -- one leap for each last bit, but for the smallest one, where both additions are ties
  have hpath : Drift.path (shareUnits 5859) 5853 = 1098385588224 :=
    Drift.path_leaps (k := 0) (l := [(5, 0), (5, 0), (6, 2), (7, 4), (8, 11), (9, 22), (10, 45), (11, 90), (12, 182),
      (13, 365), (14, 732), (15, 1463), (16, 2924)]) (by decide +kernel)
  have hnear : nearest (1098385588224 * 5859) / 2 ^ 40 = 5852 := by decide +kernel
  rw [selected_eq (by decide) (by decide) (by decide), show (5859 : UInt32).toNat = 5859 from rfl, hpath, hnear]
  rfl

end

end Walk

end PixelShader
