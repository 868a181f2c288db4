import Mathlib
/-!
# Text that falls into pieces in one way

A piece that keeps to a class of characters ends where a character outside the class follows, so two equal texts that
are each such a piece and a rest have the same piece and the same rest (`append_inj_of_within`).  Lists of words with
commas between them fall apart in the same way.
-/
namespace PixelShader.Text

variable {P Q : Char → Bool} {s s' t t' : String}

def Within (P : Char → Bool) (s : String) : Prop := s.toList.all P = true

instance : Decidable (Within P s) := inferInstanceAs (Decidable (_ = true))

/-- The text is empty or starts with a character outside the class. -/
def StartsOff (P : Char → Bool) (t : String) : Prop := t.toList.head?.all (fun c => !P c) = true

instance : Decidable (StartsOff P t) := inferInstanceAs (Decidable (_ = true))

theorem Within.append (hs : Within P s) (ht : Within P t) : Within P (s ++ t) := by
  rw [Within, String.toList_append, List.all_append, hs, ht, Bool.and_self]

theorem Within.mono (hs : Within P s) (h : ∀ c, P c = true → Q c = true) : Within Q s := by
  rw [Within, List.all_eq_true] at hs ⊢
  exact fun c hc => h c (hs c hc)

theorem StartsOff.mono (ht : StartsOff Q t) (h : ∀ c, P c = true → Q c = true) : StartsOff P t := by
  rw [StartsOff] at ht ⊢
  cases hl : t.toList.head? with
  | none => rfl
  | some c =>
    rw [hl] at ht
    have hq : Q c = false := by simpa using ht
    have hp : P c = false := by
      by_contra hc
      exact absurd (h c (by simpa using hc)) (by simp [hq])
    simp [hp]

theorem StartsOff.append (hs : StartsOff P s) (ht : StartsOff P t) : StartsOff P (s ++ t) := by
  rw [StartsOff, String.toList_append]
  rw [StartsOff] at hs
  cases hl : s.toList with
  | nil => exact ht
  | cons c cs =>
    rw [hl] at hs
    exact hs

theorem StartsOff.append_of_ne (hs : StartsOff P s) (hne : s ≠ "") : StartsOff P (s ++ t) := by
  rw [StartsOff, String.toList_append]
  rw [StartsOff] at hs
  cases hl : s.toList with
  | nil => exact absurd (String.toList_inj.1 hl) hne
  | cons c cs =>
    rw [hl] at hs
    exact hs

theorem Within.startsOff (hs : Within Q s) (h : ∀ c, Q c = true → P c = false) : StartsOff P s := by
  rw [Within] at hs
  rw [StartsOff]
  cases hl : s.toList with
  | nil => rfl
  | cons c cs =>
    rw [hl, List.all_cons, Bool.and_eq_true] at hs
    simp [h c hs.1]

theorem takeWhile_append (hs : Within P s) (ht : StartsOff P t) : (s ++ t).toList.takeWhile P = s.toList := by
  rw [String.toList_append, List.takeWhile_append_of_pos (List.all_eq_true.1 hs)]
  rw [StartsOff] at ht
  cases hl : t.toList with
  | nil => simp
  | cons c cs =>
    rw [hl] at ht
    have hc : P c = false := by simpa using ht
    simp [hc]

theorem append_inj_of_within (hs : Within P s) (hs' : Within P s') (ht : StartsOff P t) (ht' : StartsOff P t')
    (h : s ++ t = s' ++ t') : s = s' ∧ t = t' := by
  have heq : s = s' := String.toList_inj.1 (by rw [← takeWhile_append hs ht, h, takeWhile_append hs' ht'])
  subst heq
  exact ⟨rfl, (String.append_right_inj s).1 h⟩

/-! ## A piece behind a point that may be left out -/

section
variable {p q : Prop} [Decidable p] [Decidable q]

theorem pointed_inj (h : (if p then "" else "." ++ s) = if q then "" else "." ++ t) : (p ∧ q) ∨ (¬p ∧ ¬q ∧ s = t) := by
  split at h <;> split at h
  · rename_i hp hq
    exact .inl ⟨hp, hq⟩
  · exact absurd (String.append_eq_empty_iff.1 h.symm).1 (by decide)
  · exact absurd (String.append_eq_empty_iff.1 h).1 (by decide)
  · rename_i hp hq
    exact .inr ⟨hp, hq, (String.append_right_inj _).1 h⟩

theorem startsOff_pointed (hP : P '.' = false) : StartsOff P (if p then "" else "." ++ s) := by
  split
  · rfl
  · exact StartsOff.append_of_ne (by rw [StartsOff]; simp [hP]) (by decide)

theorem within_pointed (hP : P '.' = true) (hs : Within P s) : Within P (if p then "" else "." ++ s) := by
  split
  · rfl
  · exact Within.append (by rw [Within]; simp [hP]) hs

end

/-! ## Numbers and words -/

theorem isAlpha_eq_false_of_isDigit {c : Char} (h : c.isDigit = true) : c.isAlpha = false := by
  simp only [Char.isDigit, Char.isAlpha, Char.isUpper, Char.isLower, Bool.and_eq_true, decide_eq_true_eq, ge_iff_le,
    Bool.or_eq_false_iff, Bool.and_eq_false_iff, decide_eq_false_iff_not, UInt32.le_iff_toNat_le] at h ⊢
  have h9 : '9'.val.toNat = 57 := rfl
  have hA : 'A'.val.toNat = 65 := rfl
  have ha : 'a'.val.toNat = 97 := rfl
  omega

theorem within_toString (n : Nat) : Within Char.isDigit (toString n) := by
  rw [Within, Nat.toString_eq_ofList_toDigits, String.toList_ofList, List.all_eq_true]
  exact fun c hc => Nat.isDigit_of_mem_toDigits (by decide) (by decide) hc

/-- The characters of mnemonics and operands.  Blanks, commas, parentheses and line ends stand between them. -/
def isWordChar (c : Char) : Bool := c.isAlphanum || c == '.' || c == '_' || c == '-' || c == '!'

theorem isWordChar_of_isAlphanum {c : Char} (h : c.isAlphanum = true) : isWordChar c = true := by
  simp [isWordChar, h]

theorem word_of_alphanum (h : Within Char.isAlphanum s) : Within isWordChar s := h.mono fun _ => isWordChar_of_isAlphanum

theorem isAlphanum_of_isAlpha {c : Char} (h : c.isAlpha = true) : c.isAlphanum = true := by
  rw [Char.isAlphanum, h, Bool.true_or]

theorem isAlphanum_of_isDigit {c : Char} (h : c.isDigit = true) : c.isAlphanum = true := by
  rw [Char.isAlphanum, h, Bool.or_true]

theorem alphanum_of_alpha (h : Within Char.isAlpha s) : Within Char.isAlphanum s := h.mono fun _ => isAlphanum_of_isAlpha

theorem alphanum_of_digits (h : Within Char.isDigit s) : Within Char.isAlphanum s := h.mono fun _ => isAlphanum_of_isDigit

theorem line_of_word (h : Within isWordChar s) : Within (· != '\n') s := by
  refine h.mono fun c hc => ?_
  rw [bne_iff_ne]
  rintro rfl
  exact absurd hc (by decide)

/-- Words that go on a list: each has a comma before it. -/
def listed : List String → String
  | [] => ""
  | w :: ws => ", " ++ (w ++ listed ws)

theorem intercalate_cons (w : String) : ∀ ws, ", ".intercalate (w :: ws) = w ++ listed ws
  | [] => by rw [String.intercalate_singleton, listed, String.append_empty]
  | v :: ws => by rw [String.intercalate_cons_cons, intercalate_cons v ws, listed, String.append_assoc]

theorem startsOff_listed (ws : List String) : StartsOff isWordChar (listed ws) := by
  cases ws with
  | nil => decide
  | cons w ws => exact StartsOff.append_of_ne (by decide) (by decide)

theorem within_line_listed : ∀ {ws : List String}, (∀ w ∈ ws, Within isWordChar w) → Within (· != '\n') (listed ws)
  | [], _ => rfl
  | w :: ws, h => by
    have hws : Within (· != '\n') (listed ws) := within_line_listed fun u hu => h u (List.mem_cons_of_mem _ hu)
    exact Within.append (by decide) ((line_of_word (h w List.mem_cons_self)).append hws)

theorem listed_inj : ∀ {ws ws' : List String}, (∀ w ∈ ws, Within isWordChar w) → (∀ w ∈ ws', Within isWordChar w) →
    listed ws = listed ws' → ws = ws'
  | [], [], _, _, _ => rfl
  | [], _ :: _, _, _, h => absurd (String.append_eq_empty_iff.1 h.symm).1 (by decide)
  | _ :: _, [], _, _, h => absurd (String.append_eq_empty_iff.1 h).1 (by decide)
  | w :: ws, w' :: ws', hw, hw', h => by
    rw [listed, listed, String.append_right_inj] at h
    obtain ⟨rfl, hrest⟩ := append_inj_of_within (hw w List.mem_cons_self) (hw' w' List.mem_cons_self)
      (startsOff_listed ws) (startsOff_listed ws') h
    rw [listed_inj (fun u hu => hw u (List.mem_cons_of_mem _ hu)) (fun u hu => hw' u (List.mem_cons_of_mem _ hu)) hrest]

end PixelShader.Text
