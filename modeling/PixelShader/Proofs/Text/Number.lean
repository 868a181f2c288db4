import Mathlib
import PixelShader.Text.Basic
import PixelShader.Text.Number
/-!
# The characters of numbers

An index or a lane is written with digits, letters, signs and points; a text with anything else in it is not read as one
(`numeral_of_readIndex`, `numeral_of_readLane`).  Blanks at the ends of a text are cut off before it is read, and nothing
but blanks is (`Padded.trim_eq`, `mem_trim`).  So a separator in a text keeps it from being a number
(`Numeral.notMem`).
-/
namespace PixelShader.Text

/-! ## Text without blanks around it -/

theorem mem_trim {c : Char} {cs : List Char} (h : c ∈ cs) (hc : isBlank c = false) : c ∈ trim cs := by
  have hdrop : ∀ l : List Char, c ∈ l → c ∈ l.dropWhile isBlank := by
    intro l hl
    rw [← List.takeWhile_append_dropWhile (p := isBlank) (l := l)] at hl
    refine (List.mem_append.1 hl).resolve_left fun ht => ?_
    rw [List.mem_takeWhile_imp ht] at hc
    cases hc
  rw [trim, List.mem_reverse]
  exact hdrop _ (List.mem_reverse.2 (hdrop _ h))

theorem dropWhile_blanks {p cs : List Char} (hp : p.all isBlank) : (p ++ cs).dropWhile isBlank = cs.dropWhile isBlank :=
  List.dropWhile_append_of_pos (List.all_eq_true.1 hp)

theorem trim_blanks {p q : List Char} (cs : List Char) (hp : p.all isBlank) (hq : q.all isBlank) :
    trim (p ++ cs ++ q) = trim cs := by
  have hq' : q.reverse.all isBlank := by rwa [List.all_reverse]
  unfold trim
  rw [List.append_assoc, dropWhile_blanks hp, List.dropWhile_append]
  split
  · -- all of the text is blank, and so are its ends
    rename_i hcs
    rw [List.isEmpty_iff.1 hcs, List.dropWhile_eq_nil_iff.2 (List.all_eq_true.1 hq)]
  · rw [List.reverse_append, dropWhile_blanks hq']

/-- A text with blanks around it, or without. -/
def Padded (cs padded : List Char) : Prop := ∃ p q, p.all isBlank = true ∧ q.all isBlank = true ∧ padded = p ++ cs ++ q

theorem Padded.trim_eq {cs padded : List Char} (h : Padded cs padded) : trim padded = trim cs := by
  obtain ⟨p, q, hp, hq, rfl⟩ := h
  exact trim_blanks cs hp hq

/-! ## The characters of numbers -/

def isNumeral (c : Char) : Bool := c.isAlphanum || c == '+' || c == '-' || c == '.'

def Numeral (cs : List Char) : Prop := ∀ c ∈ cs, isNumeral c = true

theorem isNumeral_of_isDigit {c : Char} (h : isDigit c = true) : isNumeral c = true := by
  have hd : c.isDigit = true := h
  simp [isNumeral, Char.isAlphanum, hd]

theorem numeral_of_digits {cs : List Char} (h : ∀ c ∈ cs, isDigit c = true) : Numeral cs := fun c hc =>
  isNumeral_of_isDigit (h c hc)

theorem Numeral.cons {c : Char} {cs : List Char} (hc : isNumeral c = true) (h : Numeral cs) : Numeral (c :: cs) :=
  List.forall_mem_cons.2 ⟨hc, h⟩

theorem Numeral.append {cs ds : List Char} (h : Numeral cs) (h' : Numeral ds) : Numeral (cs ++ ds) :=
  List.forall_mem_append.2 ⟨h, h'⟩

theorem digits_of_readDigits : ∀ {cs : List Char} {value : Nat} {i : UInt32}, readDigits value cs = .ok i →
    ∀ c ∈ cs, isDigit c = true
  | [], _, _, _ => fun c hc => by cases hc
  | d :: cs, value, i, h => by
    unfold readDigits at h
    split at h
    · cases h
    · rename_i hd
      split at h
      · cases h
      · exact List.forall_mem_cons.2 ⟨by simpa using hd, digits_of_readDigits h⟩

theorem numeral_of_readIndex {cs : List Char} {i : UInt32} (h : readIndex cs = .ok i) : Numeral cs := by
  unfold readIndex at h
  split at h
  · cases h
  · cases h
  · exact .cons (by decide) (numeral_of_digits (digits_of_readDigits h))
  · exact numeral_of_digits (digits_of_readDigits h)

theorem numeral_of_ite {α : Type} {cs : List Char} {a b : α}
    (h : (if (cs.isEmpty || !cs.all isDigit) = true then none else some a) = some b) : Numeral cs := by
  split at h
  · cases h
  · rename_i hd
    simp only [Bool.or_eq_true, Bool.not_eq_true', not_or, Bool.not_eq_false] at hd
    exact numeral_of_digits (List.all_eq_true.1 hd.2)

theorem numeral_of_readExponent {cs : List Char} {e : Int} (h : readExponent cs = some e) : Numeral cs := by
  cases cs with
  | nil => exact fun c hc => by cases hc
  | cons mark rest =>
    unfold readExponent at h
    simp only at h
    split at h
    · cases h
    · rename_i hmark
      have hm : isNumeral mark = true := by
        simp only [Bool.and_eq_true, bne_iff_ne, not_and_or, ne_eq, not_not] at hmark
        rcases hmark with rfl | rfl <;> decide
      refine .cons hm ?_
      split at h
      · exact .cons (by decide) (numeral_of_ite h)
      · exact .cons (by decide) (numeral_of_ite h)
      · exact numeral_of_ite h

theorem numeral_of_spanDigits {cs : List Char} (h : Numeral (spanDigits cs).2) : Numeral cs := by
  rw [← List.takeWhile_append_dropWhile (p := isDigit) (l := cs)]
  exact .append (numeral_of_digits fun c hc => List.mem_takeWhile_imp hc) h

theorem numeral_of_readScientific {cs : List Char} {r : Nat × Int} (h : readScientific cs = some r) : Numeral cs := by
  unfold readScientific at h
  refine numeral_of_spanDigits ?_
  simp only at h
  split at h
  · rename_i rest hrest
    rw [hrest]
    split at h
    · cases h
    · obtain ⟨e, he, -⟩ := Option.map_eq_some_iff.1 h
      exact .cons (by decide) (numeral_of_spanDigits (numeral_of_readExponent he))
  · split at h
    · cases h
    · obtain ⟨e, he, -⟩ := Option.map_eq_some_iff.1 h
      exact numeral_of_readExponent he

theorem isAlpha_of_isAlpha_toLower {c : Char} (h : c.toLower.isAlpha = true) : c.isAlpha = true := by
  unfold Char.toLower at h
  split at h
  · rename_i hu
    simp only [Char.isAlpha, Char.isUpper, Bool.or_eq_true, decide_eq_true_eq]
    exact .inl hu
  · exact h

theorem numeral_of_readSpecial {cs : List Char} {a : Lane} (h : readSpecial cs = some a) : Numeral cs := by
  have hname : ∀ name : String, name.toList.all Char.isAlpha = true → String.ofList (cs.map Char.toLower) = name →
      Numeral cs := by
    intro name halpha he c hc
    have hl : cs.map Char.toLower = name.toList := by rw [← he, String.toList_ofList]
    have hlow : c.toLower.isAlpha = true := by
      rw [← hl] at halpha
      exact List.all_eq_true.1 halpha _ (List.mem_map_of_mem hc)
    simp [isNumeral, Char.isAlphanum, isAlpha_of_isAlpha_toLower hlow]
  unfold readSpecial at h
  simp only at h
  split at h
  · rename_i he
    rcases he with he | he
    · exact hname _ (by decide) he
    · exact hname _ (by decide) he
  · split at h
    · rename_i he
      exact hname _ (by decide) he
    · cases h

theorem numeral_of_readMagnitude {cs : List Char} {a : Lane} (h : readMagnitude cs = some a) : Numeral cs := by
  unfold readMagnitude at h
  split at h
  · rename_i hs
    exact numeral_of_readScientific hs
  · exact numeral_of_readSpecial h

theorem numeral_of_readLane {cs : List Char} {a : Lane} (h : readLane cs = .ok a) : Numeral cs := by
  unfold readLane at h
  simp only at h
  split at h
  · cases h
  · split at h
    · cases h
    · rename_i hm
      have hn := numeral_of_readMagnitude hm
      split at hn
      · exact .cons (by decide) hn
      · exact .cons (by decide) hn
      · exact hn

/-! ## Separators -/

def isSeparator (c : Char) : Bool := c == '=' || c == ','

/-- No separator is part of what is read as a number, nor of the blanks around it. -/
theorem Numeral.notMem {c : Char} {cs : List Char} (h : Numeral (trim cs)) (hc : isSeparator c = true) : c ∉ cs := by
  have hclass : isBlank c = false ∧ isNumeral c = false := by
    simp only [isSeparator, Bool.or_eq_true, beq_iff_eq] at hc
    rcases hc with rfl | rfl <;> decide
  intro hm
  have hn := h c (mem_trim hm hclass.1)
  rw [hclass.2] at hn
  cases hn

theorem Numeral.count_eq_zero {c : Char} {cs : List Char} (h : Numeral (trim cs)) (hc : isSeparator c = true) :
    cs.count c = 0 := List.count_eq_zero.2 (h.notMem hc)

end PixelShader.Text
