import Mathlib
import PixelShader.Decimal.Shortest
/-!
# What a decimal's text tells

The text of a decimal is digits with at most one point among them, and the decimal can be read back from it, its places
included (`Decimal.text_injective`).  The shortest decimal of a span lies in the span, so two numbers whose spans are
apart are never written alike.
-/
namespace PixelShader.Decimal

variable {d e : Decimal}

/-! ## Figures -/

theorem isDigit_of_mem_figures {c : Char} (h : c ∈ d.figures) : c.isDigit = true := by
  rcases List.mem_append.1 h with h | h
  · rw [List.eq_of_mem_replicate h]
    rfl
  · exact Nat.isDigit_of_mem_toDigits (by decide) (by decide) h

theorem point_notMem_figures (d : Decimal) : '.' ∉ d.figures := fun h =>
  absurd (isDigit_of_mem_figures h) (by decide)

theorem places_lt_length_figures (d : Decimal) : d.places < d.figures.length := by
  simp only [figures, List.length_append, List.length_replicate]
  omega

theorem ofDigitChars_figures (d : Decimal) : Nat.ofDigitChars 10 d.figures 0 = d.digits := by
  rw [figures, Nat.ofDigitChars_append, Nat.ofDigitChars_replicate_zero, Nat.mul_zero,
    Nat.ofDigitChars_ten_toDigits]

/-! ## Text -/

theorem toList_text_of_whole (h : d.places = 0) : d.text.toList = d.figures := by
  rw [text, if_pos h, String.toList_ofList]

theorem toList_text_of_point (h : d.places ≠ 0) :
    d.text.toList = d.figures.take (d.figures.length - d.places) ++
      '.' :: d.figures.drop (d.figures.length - d.places) := by
  rw [text, if_neg h, String.toList_ofList]

theorem point_mem_text_iff : '.' ∈ d.text.toList ↔ d.places ≠ 0 := by
  by_cases h : d.places = 0
  · simp [toList_text_of_whole h, point_notMem_figures, h]
  · simp [toList_text_of_point h, h]

theorem isDigit_or_point_of_mem_text {c : Char} (hc : c ∈ d.text.toList) : c.isDigit = true ∨ c = '.' := by
  by_cases h : d.places = 0
  · rw [toList_text_of_whole h] at hc
    exact .inl (isDigit_of_mem_figures hc)
  · rw [toList_text_of_point h, List.mem_append, List.mem_cons] at hc
    rcases hc with hc | rfl | hc
    · exact .inl (isDigit_of_mem_figures (List.mem_of_mem_take hc))
    · exact .inr rfl
    · exact .inl (isDigit_of_mem_figures (List.mem_of_mem_drop hc))

theorem text_starts_with_digit (d : Decimal) : ∃ c cs, d.text.toList = c :: cs ∧ c.isDigit = true := by
  have hlen := d.places_lt_length_figures
  obtain ⟨c, cs, hf⟩ := List.exists_cons_of_length_pos (Nat.zero_lt_of_lt hlen)
  have hc : c.isDigit = true := isDigit_of_mem_figures (d := d) (hf ▸ List.mem_cons_self)
  by_cases h : d.places = 0
  · exact ⟨c, cs, by rw [toList_text_of_whole h, hf], hc⟩
  · obtain ⟨n, hn⟩ : ∃ n, d.figures.length - d.places = n + 1 := Nat.exists_eq_add_one.2 (by omega)
    refine ⟨c, cs.take n ++ '.' :: d.figures.drop (n + 1), ?_, hc⟩
    rw [toList_text_of_point h, hn]
    nth_rewrite 1 [hf]
    rfl

theorem eq_of_figures (hp : d.places = e.places) (hf : d.figures = e.figures) : d = e := by
  have hd : d.digits = e.digits := by rw [← ofDigitChars_figures d, hf, ofDigitChars_figures]
  cases d
  cases e
  exact congr (congrArg Decimal.mk hd) hp

/-- A decimal can be read back from its text: the places are the figures after the point. -/
theorem text_injective : Function.Injective Decimal.text := by
  intro d e h
  have hpoint : d.places ≠ 0 ↔ e.places ≠ 0 := by rw [← point_mem_text_iff, h, point_mem_text_iff]
  have hlist : d.text.toList = e.text.toList := congrArg String.toList h
  by_cases hd : d.places = 0
  · have he : e.places = 0 := by
      by_contra he
      exact hpoint.2 he hd
    rw [toList_text_of_whole hd, toList_text_of_whole he] at hlist
    exact eq_of_figures (hd.trans he.symm) hlist
  · have he : e.places ≠ 0 := hpoint.1 hd
    rw [toList_text_of_point hd, toList_text_of_point he] at hlist
    obtain ⟨hwhole, -, hrest⟩ := (List.append_cons_inj_of_notMem
      (fun hm => d.point_notMem_figures (List.mem_of_mem_take hm))
      (fun hm => d.point_notMem_figures (List.mem_of_mem_drop hm))).1 hlist
    have hplaces : d.places = e.places := by
      have hlen := congrArg List.length hrest
      have := d.places_lt_length_figures
      have := e.places_lt_length_figures
      simp only [List.length_drop] at hlen
      omega
    refine eq_of_figures hplaces ?_
    rw [← List.take_append_drop (d.figures.length - d.places) d.figures, hwhole, hrest, List.take_append_drop]

/-! ## Spans -/

namespace Span

variable {s t : Span} {g : Grid} {n scale : Nat}

/-- A fraction in a span lies between its ends, and on an end only when the span is closed. -/
theorem holds_iff : s.holds n scale = true ↔
    (s.low * scale ≤ n * s.unit ∧ n * s.unit ≤ s.high * scale) ∧
      (s.closed = false → s.low * scale ≠ n * s.unit ∧ n * s.unit ≠ s.high * scale) := by
  cases hc : s.closed with
  | false =>
    simp [holds, hc]
    omega
  | true => simp [holds, hc]

theorem contains_of_on (h : s.on g = some d) : s.contains d = true := by
  simp only [on] at h
  split at h
  · split at h
    · rename_i hup
      obtain rfl := Option.some.inj h
      exact (Bool.and_eq_true_iff.1 hup).1
    · rename_i hdown _
      obtain rfl := Option.some.inj h
      exact hdown
  · split at h
    · rename_i hup
      obtain rfl := Option.some.inj h
      exact hup
    · cases h

theorem contains_shortest {gs : List Grid} (h : s.contains d = true) : s.contains (s.shortest gs d) = true := by
  rw [shortest]
  cases hf : gs.findSome? s.on with
  | none => exact h
  | some found =>
    obtain ⟨g, _, hg⟩ := List.exists_of_findSome?_eq_some hf
    exact contains_of_on hg

/-- One span ends before the other begins; a common end belongs to at most one of them. -/
structure Before (s t : Span) : Prop where
  unit : s.unit = t.unit
  le : s.high ≤ t.low
  apart : s.closed = true → t.closed = true → s.high ≠ t.low

theorem Before.not_both (h : Before s t) (hs : s.contains d = true) : t.contains d = false := by
  by_contra ht
  rw [Bool.not_eq_false] at ht
  obtain ⟨⟨_, hhigh⟩, hsopen⟩ := holds_iff.1 hs
  obtain ⟨⟨hlow, _⟩, htopen⟩ := holds_iff.1 ht
  -- the decimal is squeezed between the two ends, which are thus one point
  have hends : s.high * Nat.pow 10 d.places ≤ t.low * Nat.pow 10 d.places := Nat.mul_le_mul_right _ h.le
  rw [← h.unit] at hlow htopen
  have hsclosed : s.closed = true := by
    by_contra hc
    exact (hsopen (by simpa using hc)).2 (by omega)
  have htclosed : t.closed = true := by
    by_contra hc
    exact (htopen (by simpa using hc)).1 (by omega)
  refine h.apart hsclosed htclosed ?_
  exact Nat.eq_of_mul_eq_mul_right (Nat.pow_pos (n := d.places) (by decide : 0 < 10)) (by
    show s.high * Nat.pow 10 d.places = t.low * Nat.pow 10 d.places
    omega)

end Span
end PixelShader.Decimal
