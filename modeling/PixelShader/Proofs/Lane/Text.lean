import Mathlib
import PixelShader.Lane.Text
import PixelShader.Proofs.Decimal
import PixelShader.Proofs.Lane.Fields
import PixelShader.Proofs.Text.Pieces
/-!
# What a lane's text tells

The spans of two finite magnitudes never share a point: they meet halfway between neighbours, and of two neighbours one
has an odd significand and leaves its ends out.  The decimal written for a lane lies in the lane's span, so lanes with
one text have one magnitude, and every lane but a NaN can be read back from its text (`Lane.text_eq_iff`).
-/
namespace PixelShader.Lane

variable {a b : Lane}

/-! ## Magnitudes -/

/-- The power of two that one unit of the significand has in steps. -/
def shift (a : Lane) : Nat := Nat.max a.exponent 1 - 1

/-- How far the span reaches below the number, in quarters of a unit of the significand. -/
def margin (a : Lane) : Nat := if a.fraction = 0 ∧ 1 < a.exponent then 1 else 2

theorem steps_eq (a : Lane) : a.steps = a.significand * 2 ^ a.shift := Nat.shiftLeft_eq _ _

theorem span_low (a : Lane) : a.span.low = (4 * a.significand - a.margin) * 2 ^ a.shift := by
  have hdown : (if a.fraction = 0 ∧ 1 < a.exponent then 1 <<< a.shift else 2 * 1 <<< a.shift) =
      a.margin * 2 ^ a.shift := by
    unfold margin
    split <;> simp [Nat.shiftLeft_eq]
  show 4 * a.steps - (if a.fraction = 0 ∧ 1 < a.exponent then 1 <<< a.shift else 2 * 1 <<< a.shift) = _
  rw [hdown, steps_eq, Nat.sub_mul, Nat.mul_assoc]

theorem span_high (a : Lane) : a.span.high = (4 * a.significand + 2) * 2 ^ a.shift := by
  show 4 * a.steps + 2 * 1 <<< a.shift = _
  rw [steps_eq, Nat.add_mul, Nat.mul_assoc, Nat.shiftLeft_eq, Nat.one_mul]

theorem le_significand (h : 0 < a.shift) : 2 ^ 23 ≤ a.significand := by
  have hne : a.exponent ≠ 0 := by
    intro he
    rw [shift, he] at h
    exact absurd h (by decide)
  rw [significand, if_neg hne]
  omega

theorem span_closed_iff (a : Lane) : a.span.closed = true ↔ a.significand % 2 = 0 := by
  show (a.fraction % 2 == 0) = true ↔ _
  rw [beq_iff_eq]
  unfold significand
  split <;> omega

theorem margin_of_lt_shift (h : 0 < a.shift) : a.margin = if a.significand = 2 ^ 23 then 1 else 2 := by
  have he : 1 < a.exponent := by
    rw [shift] at h
    by_contra hle
    rw [show Nat.max a.exponent 1 = 1 from Nat.max_eq_right (by omega)] at h
    omega
  simp only [margin, significand, if_neg (show a.exponent ≠ 0 by omega), he, and_true]
  congr 1
  simp

theorem margin_pos (a : Lane) : 0 < a.margin := by
  unfold margin
  split <;> omega

theorem margin_le (a : Lane) : a.margin ≤ 2 := by
  unfold margin
  split <;> omega

/-! ## The spans lie in the order of the magnitudes -/

theorem shift_mono (h : a.steps ≤ b.steps) : a.shift ≤ b.shift := by
  by_contra hlt
  rw [Nat.not_le] at hlt
  have ha := le_significand (Nat.zero_lt_of_lt hlt)
  have hpow : 2 * 2 ^ b.shift ≤ 2 ^ a.shift := by
    rw [Nat.mul_comm, ← Nat.pow_succ]
    exact Nat.pow_le_pow_right (by decide) hlt
  have hle : 2 ^ 23 * (2 * 2 ^ b.shift) ≤ a.significand * 2 ^ a.shift := Nat.mul_le_mul ha hpow
  have hup : b.significand * 2 ^ b.shift < 2 ^ 24 * 2 ^ b.shift :=
    Nat.mul_lt_mul_of_pos_right b.significand_lt (Nat.two_pow_pos _)
  rw [steps_eq, steps_eq] at h
  omega

/-- The distance of the spans in units of the lower one's significand; `n` is the ratio of the two units. -/
theorem significand_gap {n : Nat} (hn : b.shift = a.shift → n = 1) (hn' : a.shift < b.shift → 2 ≤ n)
    (hle : a.shift ≤ b.shift) (h : a.significand < b.significand * n) :
    4 * a.significand + 2 ≤ (4 * b.significand - b.margin) * n ∧
      (a.significand % 2 = 0 → b.significand % 2 = 0 → 4 * a.significand + 2 ≠ (4 * b.significand - b.margin) * n) := by
  have ha := a.significand_lt
  rcases Nat.eq_or_lt_of_le hle with heq | hlt
  · -- one binade: the lower span ends half a unit above its number, the upper one begins at most half a unit below
    rw [hn heq.symm, Nat.mul_one] at *
    have := b.margin_pos
    have := b.margin_le
    omega
  · -- the upper number is at least the foot of a later binade, where the margin is half as wide
    have hb := le_significand (Nat.zero_lt_of_lt hlt)
    have hm := margin_of_lt_shift (Nat.zero_lt_of_lt hlt)
    have hmul : (4 * b.significand - b.margin) * 2 ≤ (4 * b.significand - b.margin) * n :=
      Nat.mul_le_mul_left _ (hn' hlt)
    split at hm <;> omega

theorem span_before (h : a.steps < b.steps) : a.span.Before b.span := by
  have hle := shift_mono h.le
  obtain ⟨k, hk⟩ := Nat.exists_eq_add_of_le hle
  have hpos : 0 < 2 ^ a.shift := Nat.two_pow_pos _
  have hratio : 2 ^ b.shift = 2 ^ k * 2 ^ a.shift := by rw [hk, Nat.pow_add, Nat.mul_comm]
  rw [steps_eq, steps_eq, hratio, ← Nat.mul_assoc] at h
  obtain ⟨hgap, hends⟩ := significand_gap (a := a) (b := b) (n := 2 ^ k)
    (fun heq => by rw [show k = 0 by omega, Nat.pow_zero])
    (fun hlt => Nat.le_self_pow (show k ≠ 0 by omega) 2) hle (Nat.lt_of_mul_lt_mul_right h)
  have hlow : b.span.low = (4 * b.significand - b.margin) * 2 ^ k * 2 ^ a.shift := by
    rw [span_low, hratio, Nat.mul_assoc]
  refine ⟨rfl, ?_, fun ha hb heq => ?_⟩
  · rw [span_high, hlow]
    exact Nat.mul_le_mul_right _ hgap
  · rw [span_high, hlow] at heq
    exact hends ((span_closed_iff a).1 ha) ((span_closed_iff b).1 hb) (Nat.eq_of_mul_eq_mul_right hpos heq)

/-! ## The decimal lies in the span -/

theorem span_contains_exact (h : a.steps ≠ 0) : a.span.contains ⟨a.steps * Nat.pow 5 149, 149⟩ = true := by
  have hexact : a.steps * Nat.pow 5 149 * a.span.unit = 4 * a.steps * Nat.pow 10 149 := by
    have hunit : Nat.pow 5 149 * a.span.unit = 4 * Nat.pow 10 149 := by
      show Nat.pow 5 149 * 1 <<< 151 = _
      decide
    rw [Nat.mul_assoc, hunit]
    ac_rfl
  have hten : 0 < Nat.pow 10 149 := by decide
  have hlow : a.span.low < 4 * a.steps := by
    have hpow : 0 < a.margin * 2 ^ a.shift := Nat.mul_pos a.margin_pos (Nat.two_pow_pos _)
    rw [span_low, Nat.sub_mul, Nat.mul_assoc, ← steps_eq]
    omega
  have hhigh : 4 * a.steps < a.span.high := by
    have hpow : 0 < 2 ^ a.shift := Nat.two_pow_pos _
    rw [span_high, Nat.add_mul, Nat.mul_assoc, ← steps_eq]
    omega
  have hlow' := Nat.mul_lt_mul_of_pos_right hlow hten
  have hhigh' := Nat.mul_lt_mul_of_pos_right hhigh hten
  refine Decimal.Span.holds_iff.2 ?_
  show (a.span.low * Nat.pow 10 149 ≤ a.steps * Nat.pow 5 149 * a.span.unit ∧
      a.steps * Nat.pow 5 149 * a.span.unit ≤ a.span.high * Nat.pow 10 149) ∧
    (a.span.closed = false → a.span.low * Nat.pow 10 149 ≠ a.steps * Nat.pow 5 149 * a.span.unit ∧
      a.steps * Nat.pow 5 149 * a.span.unit ≠ a.span.high * Nat.pow 10 149)
  rw [hexact]
  exact ⟨⟨hlow'.le, hhigh'.le⟩, fun _ => ⟨hlow'.ne, hhigh'.ne⟩⟩

theorem significand_eq_zero (h : a.steps = 0) : a.significand = 0 := by
  rw [steps_eq] at h
  exact (Nat.mul_eq_zero.1 h).resolve_right (Nat.two_pow_pos _).ne'

theorem span_contains_decimal (a : Lane) : a.span.contains a.decimal = true := by
  unfold decimal
  split
  · rename_i h
    have hzero := significand_eq_zero h
    have hclosed : a.span.closed = true := (span_closed_iff a).2 (by rw [hzero])
    refine Decimal.Span.holds_iff.2 ⟨⟨?_, ?_⟩, fun hopen => absurd (hclosed.symm.trans hopen) (by decide)⟩
    · rw [span_low, hzero]
      simp
    · simp
  · rename_i h
    exact Decimal.Span.contains_shortest (span_contains_exact h)

/-- **One decimal, one magnitude.** -/
theorem steps_eq_of_decimal_eq (h : a.decimal = b.decimal) : a.steps = b.steps := by
  have ha : a.span.contains b.decimal = true := h ▸ span_contains_decimal a
  have hb := span_contains_decimal b
  rcases Nat.lt_trichotomy a.steps b.steps with hlt | heq | hlt
  · rw [(span_before hlt).not_both ha] at hb
    cases hb
  · exact heq
  · rw [(span_before hlt).not_both hb] at ha
    cases ha

theorem fields_of_steps_eq (h : a.steps = b.steps) : a.exponent = b.exponent ∧ a.fraction = b.fraction := by
  have hshift : a.shift = b.shift := Nat.le_antisymm (shift_mono h.le) (shift_mono h.ge)
  have hsig : a.significand = b.significand := by
    rw [steps_eq, steps_eq, hshift] at h
    exact Nat.eq_of_mul_eq_mul_right (Nat.two_pow_pos _) h
  change Max.max a.exponent 1 - 1 = Max.max b.exponent 1 - 1 at hshift
  have := a.fraction_lt
  have := b.fraction_lt
  unfold significand at hsig
  split at hsig <;> split at hsig <;> omega

/-! ## Text -/

theorem magnitudeText_starts (a : Lane) :
    ∃ c cs, a.magnitudeText.toList = c :: cs ∧ (c.isDigit = true ∨ c = 'i') := by
  unfold magnitudeText
  split
  · exact ⟨'i', ['n', 'f'], rfl, .inr rfl⟩
  · obtain ⟨c, cs, htext, hc⟩ := a.decimal.text_starts_with_digit
    exact ⟨c, cs, htext, .inl hc⟩

theorem fields_of_magnitudeText_eq (h : a.magnitudeText = b.magnitudeText) :
    a.exponent = b.exponent ∧ a.fraction = b.fraction := by
  have hinf : ∀ d : Decimal, d.text ≠ "inf" := by
    intro d hd
    obtain ⟨c, cs, htext, hc⟩ := d.text_starts_with_digit
    rw [hd] at htext
    cases htext
    exact absurd hc (by decide)
  unfold magnitudeText at h
  split at h <;> split at h
  · rename_i ha hb
    simp only [isInfinite, Bool.and_eq_true, beq_iff_eq] at ha hb
    omega
  · exact absurd h.symm (hinf _)
  · exact absurd h (hinf _)
  · exact fields_of_steps_eq (steps_eq_of_decimal_eq (Decimal.text_injective h))

theorem text_of_isNaN (h : a.isNaN = true) : a.text = "NaN" := by rw [text, if_pos h]

theorem text_of_isNegative (h : a.isNaN = false) (hn : a.isNegative = true) : a.text = "-" ++ a.magnitudeText := by
  simp [text, h, hn]

theorem text_of_not_isNegative (h : a.isNaN = false) (hn : a.isNegative = false) : a.text = a.magnitudeText := by
  simp [text, h, hn]

theorem isNaN_of_text (h : a.text = "NaN") : a.isNaN = true := by
  by_contra hnan
  rw [Bool.not_eq_true] at hnan
  obtain ⟨c, cs, htext, hc⟩ := a.magnitudeText_starts
  cases hneg : a.isNegative with
  | true =>
    rw [text_of_isNegative hnan hneg] at h
    exact absurd (congrArg String.toList h) (by rw [String.toList_append]; simp)
  | false =>
    rw [text_of_not_isNegative hnan hneg] at h
    rw [h] at htext
    cases htext
    exact absurd hc (by decide)

theorem text_ne_of_signs (ha : a.isNaN = false) (hb : b.isNaN = false) (hna : a.isNegative = true)
    (hnb : b.isNegative = false) : a.text ≠ b.text := by
  intro h
  obtain ⟨c, cs, htext, hc⟩ := b.magnitudeText_starts
  rw [text_of_isNegative ha hna, text_of_not_isNegative hb hnb] at h
  have hlist := congrArg String.toList h
  rw [String.toList_append, htext] at hlist
  cases hlist
  exact absurd hc (by decide)

/-- **Every lane but a NaN can be read back from its text.** -/
theorem text_eq_iff : a.text = b.text ↔ a = b ∨ (a.isNaN = true ∧ b.isNaN = true) := by
  constructor
  · intro h
    cases ha : a.isNaN with
    | true => exact .inr ⟨rfl, isNaN_of_text (h ▸ text_of_isNaN ha)⟩
    | false =>
      have hb : b.isNaN = false := by
        by_contra hb
        rw [Bool.not_eq_false] at hb
        exact absurd (isNaN_of_text (h.trans (text_of_isNaN hb))) (by simp [ha])
      refine .inl ?_
      cases hna : a.isNegative <;> cases hnb : b.isNegative
      · rw [text_of_not_isNegative ha hna, text_of_not_isNegative hb hnb] at h
        obtain ⟨he, hf⟩ := fields_of_magnitudeText_eq h
        exact eq_of_fields (hna.trans hnb.symm) he hf
      · exact absurd h.symm (text_ne_of_signs hb ha hnb hna)
      · exact absurd h (text_ne_of_signs ha hb hna hnb)
      · rw [text_of_isNegative ha hna, text_of_isNegative hb hnb] at h
        obtain ⟨he, hf⟩ := fields_of_magnitudeText_eq (String.append_right_inj _ |>.1 h)
        exact eq_of_fields (hna.trans hnb.symm) he hf
  · rintro (rfl | ⟨ha, hb⟩)
    · rfl
    · rw [text_of_isNaN ha, text_of_isNaN hb]

theorem within_magnitudeText (a : Lane) : Text.Within Text.isWordChar a.magnitudeText := by
  unfold magnitudeText
  split
  · decide
  · refine List.all_eq_true.2 fun c hc => ?_
    rcases Decimal.isDigit_or_point_of_mem_text hc with hd | rfl
    · exact Text.isWordChar_of_isAlphanum (Text.isAlphanum_of_isDigit hd)
    · rfl

theorem within_text (a : Lane) : Text.Within Text.isWordChar a.text := by
  unfold text
  split
  · decide
  · split
    · exact Text.Within.append (by decide) a.within_magnitudeText
    · exact a.within_magnitudeText

end PixelShader.Lane
