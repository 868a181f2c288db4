import Mathlib
/-!
# Rounding to 24 significant bits

`roundDiv n d` is the whole number nearest to `n / d`, the even one of two that are equally near, and `nearest m` is the
number nearest to `m` among those with 24 significant bits.  Where `2 ^ i` is the last bit of `m`, rounding is division
by `2 ^ i` (`nearest_eq`), it errs by half of that at most (`nearest_le`, `le_nearest`), and it does not see what a
multiple of `2 ^ i` adds to `m`, a tie apart (`roundDiv_mul_add`).
-/
namespace PixelShader

/-- The whole number nearest to a quotient, the even one of two. -/
def roundDiv (n d : Nat) : Nat :=
  if d < 2 * (n % d) then n / d + 1
  else if 2 * (n % d) = d then n / d + n / d % 2
  else n / d

/-! ## Quotients -/

section
variable {n d : Nat}

theorem roundDiv_mul_right {c : Nat} (hc : 0 < c) (n d : Nat) : roundDiv (n * c) (d * c) = roundDiv n d := by
  have hlt : d * c < 2 * (n % d * c) ↔ d < 2 * (n % d) := by
    rw [← Nat.mul_assoc]
    exact Nat.mul_lt_mul_right hc
  have heq : 2 * (n % d * c) = d * c ↔ 2 * (n % d) = d := by
    rw [← Nat.mul_assoc]
    exact Nat.mul_left_inj (Nat.ne_of_gt hc)
  unfold roundDiv
  rw [Nat.mul_mod_mul_right, Nat.mul_div_mul_right _ _ hc]
  simp only [hlt, heq]

theorem roundDiv_mul_left (hd : 0 < d) (a : Nat) : roundDiv (a * d) d = a := by
  simp only [roundDiv, Nat.mul_mod_left, Nat.mul_div_cancel _ hd]
  rw [if_neg (by omega), if_neg (by omega)]

theorem roundDiv_one (n : Nat) : roundDiv n 1 = n := by
  have h := roundDiv_mul_left Nat.one_pos n
  rwa [Nat.mul_one] at h

theorem div_le_roundDiv (n d : Nat) : n / d ≤ roundDiv n d := by
  unfold roundDiv
  split
  · omega
  · split <;> omega

theorem roundDiv_le_div_add_one (n d : Nat) : roundDiv n d ≤ n / d + 1 := by
  unfold roundDiv
  split
  · omega
  · split <;> omega

theorem roundDiv_le {c : Nat} (hd : 0 < d) (h : n ≤ c * d) : roundDiv n d ≤ c := by
  rcases Nat.lt_or_eq_of_le h with hlt | rfl
  · exact Nat.le_trans (roundDiv_le_div_add_one n d) ((Nat.div_lt_iff_lt_mul hd).2 hlt)
  · rw [roundDiv_mul_left hd]

theorem roundDiv_mul_le (n d : Nat) : 2 * (roundDiv n d * d) ≤ 2 * n + d := by
  have hn := Nat.div_add_mod' n d
  unfold roundDiv
  split
  · rw [Nat.add_mul]
    omega
  · split
    · have hle : (n / d + n / d % 2) * d ≤ n / d * d + d := by
        rw [Nat.add_mul]
        have : n / d % 2 * d ≤ 1 * d := Nat.mul_le_mul_right d (by omega)
        omega
      omega
    · omega

theorem le_roundDiv_mul (hd : 0 < d) (n : Nat) : 2 * n ≤ 2 * (roundDiv n d * d) + d := by
  have hn := Nat.div_add_mod' n d
  have hr := Nat.mod_lt n hd
  unfold roundDiv
  split
  · rw [Nat.add_mul]
    omega
  · split
    · have hle : n / d * d ≤ (n / d + n / d % 2) * d := Nat.mul_le_mul_right d (Nat.le_add_right _ _)
      omega
    · omega

theorem roundDiv_mul_add (hd : 0 < d) (a : Nat) (ht : 2 * (n % d) ≠ d) :
    roundDiv (a * d + n) d = a + roundDiv n d := by
  have hdiv : (a * d + n) / d = a + n / d := by
    rw [Nat.add_comm, Nat.add_mul_div_right _ _ hd, Nat.add_comm]
  unfold roundDiv
  rw [Nat.mul_add_mod_self_right, hdiv]
  simp only [ht, if_false]
  split <;> omega

end

/-! ## Numbers of 24 bits -/

/-- The value of the last bit that is kept. -/
def lastBit (m : Nat) : Nat := 2 ^ (m.log2 - 23)

/-- The nearest number of 24 significant bits. -/
def nearest (m : Nat) : Nat := roundDiv m (lastBit m) * lastBit m

def Fits (m : Nat) : Prop := ∀ i, 2 ^ (23 + i) ≤ m → 2 ^ i ∣ m

section
variable {m i : Nat}

theorem log2_eq (hlo : 2 ^ i ≤ m) (hhi : m < 2 ^ (i + 1)) : m.log2 = i := by
  have hpos : m ≠ 0 := Nat.ne_of_gt (Nat.lt_of_lt_of_le (Nat.two_pow_pos i) hlo)
  exact (Nat.log2_eq_iff hpos).2 ⟨hlo, hhi⟩

theorem lastBit_eq (hlo : 2 ^ (23 + i) ≤ m) (hhi : m < 2 ^ (24 + i)) : lastBit m = 2 ^ i := by
  rw [lastBit, log2_eq hlo (by rwa [Nat.add_right_comm]), Nat.add_sub_cancel_left]

theorem nearest_eq (hlo : 2 ^ (23 + i) ≤ m) (hhi : m < 2 ^ (24 + i)) : nearest m = roundDiv m (2 ^ i) * 2 ^ i := by
  rw [nearest, lastBit_eq hlo hhi]

theorem exists_bounds (h : 2 ^ 23 ≤ m) : ∃ i, 2 ^ (23 + i) ≤ m ∧ m < 2 ^ (24 + i) := by
  have hpos : m ≠ 0 := by
    have := Nat.two_pow_pos 23
    omega
  have hlog : 23 ≤ m.log2 := (Nat.le_log2 hpos).2 h
  refine ⟨m.log2 - 23, ?_, ?_⟩
  · rw [show 23 + (m.log2 - 23) = m.log2 by omega]
    exact Nat.log2_self_le hpos
  · rw [show 24 + (m.log2 - 23) = m.log2 + 1 by omega]
    exact Nat.lt_log2_self

theorem le_roundDiv_of_bounds (hlo : 2 ^ (23 + i) ≤ m) : 2 ^ 23 ≤ roundDiv m (2 ^ i) := by
  refine Nat.le_trans ?_ (div_le_roundDiv m (2 ^ i))
  rw [Nat.le_div_iff_mul_le (Nat.two_pow_pos i), ← Nat.pow_add]
  exact hlo

theorem roundDiv_le_of_bounds (hhi : m < 2 ^ (24 + i)) : roundDiv m (2 ^ i) ≤ 2 ^ 24 := by
  refine Nat.le_trans (roundDiv_le_div_add_one m (2 ^ i)) ?_
  rw [Nat.succ_le_iff, Nat.div_lt_iff_lt_mul (Nat.two_pow_pos i), ← Nat.pow_add]
  exact hhi

theorem le_nearest_of_bounds (hlo : 2 ^ (23 + i) ≤ m) (hhi : m < 2 ^ (24 + i)) : 2 ^ (23 + i) ≤ nearest m := by
  rw [nearest_eq hlo hhi, Nat.pow_add]
  exact Nat.mul_le_mul_right _ (le_roundDiv_of_bounds hlo)

theorem nearest_le_of_bounds (hlo : 2 ^ (23 + i) ≤ m) (hhi : m < 2 ^ (24 + i)) : nearest m ≤ 2 ^ (24 + i) := by
  rw [nearest_eq hlo hhi, Nat.pow_add]
  exact Nat.mul_le_mul_right _ (roundDiv_le_of_bounds hhi)

theorem nearest_of_lt (h : m < 2 ^ 24) : nearest m = m := by
  have hlog : m.log2 ≤ 23 := by
    by_cases hm : m = 0
    · simp [hm]
    · exact Nat.lt_succ_iff.1 ((Nat.log2_lt hm).2 h)
  rw [nearest, lastBit, Nat.sub_eq_zero_of_le hlog, Nat.pow_zero, roundDiv_one, Nat.mul_one]

theorem lastBit_le (h : m < 2 ^ (24 + i)) : lastBit m ≤ 2 ^ i := by
  refine Nat.pow_le_pow_right Nat.two_pos ?_
  by_cases hm : m = 0
  · simp [hm]
  · have hlog : m.log2 < 24 + i := (Nat.log2_lt hm).2 h
    omega

theorem nearest_le_two_pow (h : m < 2 ^ (24 + i)) : nearest m ≤ 2 ^ (24 + i) := by
  rcases Nat.lt_or_ge m (2 ^ 23) with hm | hm
  · rw [nearest_of_lt (Nat.lt_trans hm (by decide))]
    exact Nat.le_of_lt h
  · obtain ⟨j, hlo, hhi⟩ := exists_bounds hm
    have hji : 23 + j < 24 + i := (Nat.pow_lt_pow_iff_right (by omega)).1 (Nat.lt_of_le_of_lt hlo h)
    exact Nat.le_trans (nearest_le_of_bounds hlo hhi) (Nat.pow_le_pow_right (by omega) (by omega))

/-- **Rounding up gains half of the last bit at most.** -/
theorem nearest_le (h : m < 2 ^ (24 + i)) : 2 * nearest m ≤ 2 * m + 2 ^ i :=
  Nat.le_trans (roundDiv_mul_le m (lastBit m)) (Nat.add_le_add_left (lastBit_le h) _)

/-- **Rounding down loses half of the last bit at most.** -/
theorem le_nearest (h : m < 2 ^ (24 + i)) : 2 * m ≤ 2 * nearest m + 2 ^ i :=
  Nat.le_trans (le_roundDiv_mul (Nat.two_pow_pos _) m) (Nat.add_le_add_left (lastBit_le h) _)

end

theorem fits_mul_two_pow {a : Nat} (h : a ≤ 2 ^ 24) (i : Nat) : Fits (a * 2 ^ i) := by
  intro j hj
  rcases Nat.lt_or_ge i j with hij | hji
  · -- only the carried number `2 ^ 24` reaches the next last bit
    have hup : a * 2 ^ i ≤ 2 ^ (24 + i) := by
      rw [Nat.pow_add]
      exact Nat.mul_le_mul_right _ h
    have hle : 23 + j ≤ 24 + i := (Nat.pow_le_pow_iff_right (by omega)).1 (Nat.le_trans hj hup)
    obtain rfl : j = i + 1 := by omega
    have heq : a * 2 ^ i = 2 ^ (24 + i) := by
      refine Nat.le_antisymm hup ?_
      rwa [show 24 + i = 23 + (i + 1) by omega]
    rw [heq]
    exact Nat.pow_dvd_pow 2 (by omega)
  · exact Dvd.dvd.mul_left (Nat.pow_dvd_pow 2 hji) a

theorem fits_nearest (m : Nat) : Fits (nearest m) := by
  rcases Nat.lt_or_ge m (2 ^ 23) with hm | hm
  · rw [nearest_of_lt (Nat.lt_trans hm (by decide))]
    intro i hi
    have : 2 ^ 23 ≤ 2 ^ (23 + i) := Nat.pow_le_pow_right (by omega) (by omega)
    omega
  · obtain ⟨i, hlo, hhi⟩ := exists_bounds hm
    rw [nearest_eq hlo hhi]
    exact fits_mul_two_pow (roundDiv_le_of_bounds hhi) i

theorem nearest_of_fits {m : Nat} (h : Fits m) : nearest m = m := by
  rcases Nat.lt_or_ge m (2 ^ 23) with hm | hm
  · exact nearest_of_lt (Nat.lt_trans hm (by decide))
  · obtain ⟨i, hlo, hhi⟩ := exists_bounds hm
    obtain ⟨a, ha⟩ := h i hlo
    rw [nearest_eq hlo hhi, ha, Nat.mul_comm (2 ^ i), roundDiv_mul_left (Nat.two_pow_pos i)]

end PixelShader
