import Mathlib
import PixelShader.CommandLine.Constant
import PixelShader.Proofs.Supported
import PixelShader.Proofs.Text.Number
/-!
# Which texts are constants

A constant on the command line is taken apart at the first equals sign, and a pair at the first comma behind it; the rest
is left to the readers of numbers.  These accept no separator (`Text.Numeral.notMem`), so a second one, or one in the
wrong place, is refused after all, and a text is a constant in at most one way (`readScalar_assignment`,
`readPair_assignment`).
-/
namespace PixelShader.CommandLine

open Text

/-! ## Taking texts apart -/

theorem splitAt_eq_some {separator : Char} {cs before after : List Char} :
    splitAt separator cs = some (before, after) ↔ cs = before ++ separator :: after ∧ separator ∉ before := by
  constructor
  · intro h
    have hcs := List.takeWhile_append_dropWhile (p := (· != separator)) (l := cs)
    unfold splitAt at h
    split at h
    · cases h
    · rename_i d rest hd
      cases h
      have hs : d = separator := by
        have hhead := List.head?_dropWhile_not (· != separator) cs
        rw [hd] at hhead
        simpa using hhead
      rw [hd, hs] at hcs
      exact ⟨hcs.symm, fun hm => absurd (List.mem_takeWhile_imp hm) (by simp)⟩
  · rintro ⟨rfl, h⟩
    have hb : ∀ c ∈ before, (c != separator) = true := fun c hc => bne_iff_ne.2 fun he => h (he ▸ hc)
    simp only [splitAt, List.dropWhile_append_of_pos hb, List.takeWhile_append_of_pos hb, List.dropWhile_cons,
      List.takeWhile_cons, bne_self_eq_false, Bool.false_eq_true, if_false, List.append_nil]

section
variable {cs a b c : List Char} {i : UInt32} {v w : Lane}

/-! ## What the readers accept -/

theorem readAssignment_eq_ok : readAssignment cs = .ok (i, b) ↔ ∃ a, cs = a ++ '=' :: b ∧ readIndex (trim a) = .ok i := by
  unfold readAssignment
  constructor
  · intro h
    split at h
    · cases h
    · rename_i a b' hs
      split at h
      · cases h
      · rename_i hi
        cases h
        exact ⟨a, (splitAt_eq_some.1 hs).1, hi⟩
  · rintro ⟨a, hcs, hi⟩
    simp only [splitAt_eq_some.2 ⟨hcs, (numeral_of_readIndex hi).notMem (by decide)⟩, hi]

theorem readNumber_eq_ok : readNumber cs = .ok v ↔ readLane (trim cs) = .ok v := by
  unfold readNumber
  cases readLane (trim cs) <;> simp [Except.mapError]

theorem readScalar_eq_ok : readScalar cs = .ok (i, v) ↔
    ∃ a b, cs = a ++ '=' :: b ∧ readIndex (trim a) = .ok i ∧ readLane (trim b) = .ok v := by
  unfold readScalar
  simp only [except_bind_eq_ok, pure, Except.pure, Except.ok.injEq, Prod.mk.injEq, readNumber_eq_ok]
  constructor
  · rintro ⟨⟨i, b⟩, ha, v, hv, rfl, rfl⟩
    obtain ⟨a, hcs, hi⟩ := readAssignment_eq_ok.1 ha
    exact ⟨a, b, hcs, hi, hv⟩
  · rintro ⟨a, b, hcs, hi, hv⟩
    exact ⟨(i, b), readAssignment_eq_ok.2 ⟨a, hcs, hi⟩, v, hv, rfl, rfl⟩

theorem readPair_eq_ok : readPair cs = .ok (i, v, w) ↔ ∃ a b c, cs = a ++ '=' :: (b ++ ',' :: c) ∧
    readIndex (trim a) = .ok i ∧ readLane (trim b) = .ok v ∧ readLane (trim c) = .ok w := by
  unfold readPair
  rw [except_bind_eq_ok]
  constructor
  · rintro ⟨⟨i, value⟩, ha, h⟩
    obtain ⟨a, hcs, hi⟩ := readAssignment_eq_ok.1 ha
    simp only at h
    split at h
    · cases h
    · rename_i b c hs
      simp only [except_bind_eq_ok, pure, Except.pure, Except.ok.injEq, Prod.mk.injEq, readNumber_eq_ok] at h
      obtain ⟨v, hv, w, hw, rfl, rfl, rfl⟩ := h
      rw [(splitAt_eq_some.1 hs).1] at hcs
      exact ⟨a, b, c, hcs, hi, hv, hw⟩
  · rintro ⟨a, b, c, hcs, hi, hv, hw⟩
    refine ⟨(i, b ++ ',' :: c), readAssignment_eq_ok.2 ⟨a, hcs, hi⟩, ?_⟩
    have hs : splitAt ',' (b ++ ',' :: c) = some (b, c) :=
      splitAt_eq_some.2 ⟨rfl, (numeral_of_readLane hv).notMem (by decide)⟩
    simp only [hs, except_bind_eq_ok, pure, Except.pure, readNumber_eq_ok]
    exact ⟨v, hv, w, hw, rfl⟩

/-! ## One way to be a constant -/

theorem readScalar_assignment : readScalar (a ++ '=' :: b) = .ok (i, v) ↔
    readIndex (trim a) = .ok i ∧ readLane (trim b) = .ok v := by
  rw [readScalar_eq_ok]
  constructor
  · rintro ⟨a', b', he, hi, hv⟩
    have ha' : '=' ∉ a' := (numeral_of_readIndex hi).notMem (by decide)
    have hb' : '=' ∉ b' := (numeral_of_readLane hv).notMem (by decide)
    obtain ⟨rfl, -, rfl⟩ := (List.append_cons_inj_of_notMem ha' hb').1 he.symm
    exact ⟨hi, hv⟩
  · rintro ⟨hi, hv⟩
    exact ⟨a, b, rfl, hi, hv⟩

theorem readPair_assignment : readPair (a ++ '=' :: (b ++ ',' :: c)) = .ok (i, v, w) ↔
    readIndex (trim a) = .ok i ∧ readLane (trim b) = .ok v ∧ readLane (trim c) = .ok w := by
  rw [readPair_eq_ok]
  constructor
  · rintro ⟨a', b', c', he, hi, hv, hw⟩
    have hb' := numeral_of_readLane hv
    have hc' := numeral_of_readLane hw
    have hvalue : '=' ∉ b' ++ ',' :: c' := by
      simp [hb'.notMem (c := '=') (by decide), hc'.notMem (c := '=') (by decide)]
    obtain ⟨rfl, -, he'⟩ := (List.append_cons_inj_of_notMem ((numeral_of_readIndex hi).notMem (by decide)) hvalue).1
      he.symm
    obtain ⟨rfl, -, rfl⟩ := (List.append_cons_inj_of_notMem (hb'.notMem (by decide)) (hc'.notMem (by decide))).1 he'
    exact ⟨hi, hv, hw⟩
  · rintro ⟨hi, hv, hw⟩
    exact ⟨a, b, c, rfl, hi, hv, hw⟩

theorem count_of_readScalar (h : readScalar cs = .ok (i, v)) : cs.count '=' = 1 ∧ cs.count ',' = 0 := by
  obtain ⟨a, b, rfl, hi, hv⟩ := readScalar_eq_ok.1 h
  have ha := numeral_of_readIndex hi
  have hb := numeral_of_readLane hv
  simp only [List.count_append, List.count_cons, ha.count_eq_zero (c := '=') (by decide),
    ha.count_eq_zero (c := ',') (by decide), hb.count_eq_zero (c := '=') (by decide),
    hb.count_eq_zero (c := ',') (by decide)]
  decide

theorem count_of_readPair (h : readPair cs = .ok (i, v, w)) : cs.count '=' = 1 ∧ cs.count ',' = 1 := by
  obtain ⟨a, b, c, rfl, hi, hv, hw⟩ := readPair_eq_ok.1 h
  have ha := numeral_of_readIndex hi
  have hb := numeral_of_readLane hv
  have hc := numeral_of_readLane hw
  simp only [List.count_append, List.count_cons, ha.count_eq_zero (c := '=') (by decide),
    ha.count_eq_zero (c := ',') (by decide), hb.count_eq_zero (c := '=') (by decide),
    hb.count_eq_zero (c := ',') (by decide), hc.count_eq_zero (c := '=') (by decide),
    hc.count_eq_zero (c := ',') (by decide)]
  decide

end

theorem exists_error {ε α : Type} {x : Except ε α} (h : ∀ a, x ≠ .ok a) : ∃ fault, x = .error fault := by
  cases x with
  | error fault => exact ⟨fault, rfl⟩
  | ok a => exact absurd rfl (h a)

theorem toOption_eq {ε α : Type} {x y : Except ε α} (h : ∀ a, x = .ok a ↔ y = .ok a) : x.toOption = y.toOption := by
  cases x with
  | ok a => rw [(h a).1 rfl]
  | error fault =>
    cases y with
    | ok a => cases (h a).2 rfl
    | error fault => rfl

/-- **The texts that are read as constants, and no others.**  A constant of one value is an index and a number with an
equals sign between them, one of two values has a comma between its numbers, and blanks around an index or a number do
not count.  No text is both, and none has a separator to spare. -/
theorem constant_texts :
    (∀ s i v, readScalar s = .ok (i, v) ↔ ∃ a b, s = a ++ '=' :: b ∧ s.count '=' = 1 ∧
      readIndex (trim a) = .ok i ∧ readLane (trim b) = .ok v) ∧
    (∀ s i v w, readPair s = .ok (i, v, w) ↔ ∃ a b c, s = a ++ '=' :: (b ++ ',' :: c) ∧ s.count '=' = 1 ∧
      s.count ',' = 1 ∧ readIndex (trim a) = .ok i ∧ readLane (trim b) = .ok v ∧ readLane (trim c) = .ok w) ∧
    (∀ s x y, ¬ (readScalar s = .ok x ∧ readPair s = .ok y)) ∧
    (∀ s, 1 < s.count '=' ∨ 0 < s.count ',' → ∃ fault, readScalar s = .error fault) ∧
    (∀ s, 1 < s.count '=' ∨ 1 < s.count ',' → ∃ fault, readPair s = .error fault) ∧
    (∀ a a' b b', Padded a a' → Padded b b' →
      (readScalar (a' ++ '=' :: b')).toOption = (readScalar (a ++ '=' :: b)).toOption) ∧
    ∀ a a' b b' c c', Padded a a' → Padded b b' → Padded c c' →
      (readPair (a' ++ '=' :: (b' ++ ',' :: c'))).toOption = (readPair (a ++ '=' :: (b ++ ',' :: c))).toOption := by
  refine ⟨fun s i v => ⟨fun h => ?_, ?_⟩, fun s i v w => ⟨fun h => ?_, ?_⟩, ?_, fun s hs => ?_, fun s hs => ?_,
    fun a a' b b' ha hb => ?_, fun a a' b b' c c' ha hb hc => ?_⟩
  · obtain ⟨a, b, hs, hi, hv⟩ := readScalar_eq_ok.1 h
    exact ⟨a, b, hs, (count_of_readScalar h).1, hi, hv⟩
  · rintro ⟨a, b, hs, -, hi, hv⟩
    exact readScalar_eq_ok.2 ⟨a, b, hs, hi, hv⟩
  · obtain ⟨a, b, c, hs, hi, hv, hw⟩ := readPair_eq_ok.1 h
    exact ⟨a, b, c, hs, (count_of_readPair h).1, (count_of_readPair h).2, hi, hv, hw⟩
  · rintro ⟨a, b, c, hs, -, -, hi, hv, hw⟩
    exact readPair_eq_ok.2 ⟨a, b, c, hs, hi, hv, hw⟩
  · rintro s ⟨i, v⟩ ⟨j, w, u⟩ ⟨hx, hy⟩
    have h₀ := (count_of_readScalar hx).2
    rw [(count_of_readPair hy).2] at h₀
    cases h₀
  · refine exists_error ?_
    rintro ⟨i, v⟩ h
    have := count_of_readScalar h
    omega
  · refine exists_error ?_
    rintro ⟨i, v, w⟩ h
    have := count_of_readPair h
    omega
  · refine toOption_eq ?_
    rintro ⟨i, v⟩
    rw [readScalar_assignment, readScalar_assignment, ha.trim_eq, hb.trim_eq]
  · refine toOption_eq ?_
    rintro ⟨i, v, w⟩
    rw [readPair_assignment, readPair_assignment, ha.trim_eq, hb.trim_eq, hc.trim_eq]

end PixelShader.CommandLine
