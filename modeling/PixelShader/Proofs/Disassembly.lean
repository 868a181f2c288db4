import Mathlib
import PixelShader.Bytecode.Assemble
import PixelShader.Proofs.Lane.Text
/-!
# A program can be read back from its disassembly

Two programs have one disassembly exactly when they agree in their version and instruction by instruction in all that the
text shows (`Program.disassembly_eq_iff`).  It shows everything but four things: the number of a register that is the only
one of its kind, the texture kind of a declaration that is not for a sampler, the bits of a NaN, and the bits of a mask
that stand for no component.  `Indistinct` says so for each part of a program.

Each part is shown to end where the next one starts: letters before digits, a register before its point or underscore,
a word before a blank, a comma or a parenthesis, and a line before its end.
-/
namespace PixelShader

open Text

/-! ## What the text leaves out -/

structure Register.Indistinct (r s : Register) : Prop where
  kind : r.kind = s.kind
  number : r.kind.isSingle = false → r.number = s.number

structure Source.Indistinct (a b : Source) : Prop where
  register : a.register.Indistinct b.register
  swizzle : a.swizzle = b.swizzle
  modifier : a.modifier = b.modifier

/-- The same components.  A mask that has all of them and another bit is not the full one, and shows it. -/
structure WriteMask.Indistinct (m n : WriteMask) : Prop where
  components : m.code % 16 = n.code % 16
  full : m = .full ↔ n = .full

structure Destination.Indistinct (d e : Destination) : Prop where
  register : d.register.Indistinct e.register
  mask : d.mask.Indistinct e.mask
  partialPrecision : d.partialPrecision = e.partialPrecision
  centroid : d.centroid = e.centroid

/-- The same bits, or two NaNs. -/
def Lane.Indistinct (a b : Lane) : Prop := a = b ∨ (a.isNaN = true ∧ b.isNaN = true)

inductive Operation.Indistinct : Operation → Operation → Prop
  | nop : Indistinct .nop .nop
  | define {index : UInt32} {v w : Quad} (hv : List.Forall₂ Lane.Indistinct v.toList w.toList) :
    Indistinct (.define index v) (.define index w)
  | declare {k l : TextureKind} {d e : Destination} (hd : d.Indistinct e)
    (hk : d.register.kind = .samplerState → k = l) : Indistinct (.declare k d) (.declare l e)
  | texld {d e : Destination} {a b a' b' : Source} (hd : d.Indistinct e) (ha : a.Indistinct a')
    (hb : b.Indistinct b') : Indistinct (.texld d a b) (.texld e a' b')
  | mov {d e : Destination} {a a' : Source} (hd : d.Indistinct e) (ha : a.Indistinct a') :
    Indistinct (.mov d a) (.mov e a')
  | unary {op : UnaryOp} {d e : Destination} {a a' : Source} (hd : d.Indistinct e) (ha : a.Indistinct a') :
    Indistinct (.unary op d a) (.unary op e a')
  | binary {op : BinaryOp} {d e : Destination} {a b a' b' : Source} (hd : d.Indistinct e) (ha : a.Indistinct a')
    (hb : b.Indistinct b') : Indistinct (.binary op d a b) (.binary op e a' b')
  | ternary {op : TernaryOp} {d e : Destination} {a b c a' b' c' : Source} (hd : d.Indistinct e)
    (ha : a.Indistinct a') (hb : b.Indistinct b') (hc : c.Indistinct c') :
    Indistinct (.ternary op d a b c) (.ternary op e a' b' c')

structure Instruction.Indistinct (i j : Instruction) : Prop where
  operation : i.operation.Indistinct j.operation
  predicate : Option.Rel Source.Indistinct i.predicate j.predicate

/-! ## Registers -/

theorem RegisterKind.mem_all (k : RegisterKind) : k ∈ RegisterKind.all := by cases k <;> decide

theorem RegisterKind.mnemonic_injective : Function.Injective RegisterKind.mnemonic := by
  have hnodup : (RegisterKind.all.map RegisterKind.mnemonic).Nodup := by decide
  exact fun k l h => List.inj_on_of_nodup_map hnodup k.mem_all l.mem_all h

theorem RegisterKind.within_mnemonic (k : RegisterKind) : Within Char.isAlpha k.mnemonic := by cases k <;> decide

namespace Register

variable {r s : Register} {t u : String}

def numeral (r : Register) : String := if r.kind.isSingle then "" else toString r.number.toNat

theorem text_eq (r : Register) : r.text = r.kind.mnemonic ++ r.numeral := by
  unfold text numeral
  split
  · rw [String.append_empty]
  · rfl

theorem within_numeral (r : Register) : Within Char.isDigit r.numeral := by
  unfold numeral
  split
  · decide
  · exact within_toString _

theorem within_text (r : Register) : Within Char.isAlphanum r.text := by
  rw [text_eq]
  exact (alphanum_of_alpha r.kind.within_mnemonic).append (alphanum_of_digits r.within_numeral)

theorem startsOff_text (r : Register) (t : String) : StartsOff (fun c => !c.isAlpha) (r.text ++ t) := by
  rw [text_eq, String.append_assoc]
  have hstart : StartsOff (fun c => !c.isAlpha) r.kind.mnemonic :=
    r.kind.within_mnemonic.startsOff fun _ h => by rw [h]; rfl
  exact hstart.append_of_ne (by cases r.kind <;> decide)

/-- Letters, then digits, then a rest that starts with neither. -/
theorem text_append_inj (ht : StartsOff Char.isAlphanum t) (hu : StartsOff Char.isAlphanum u)
    (h : r.text ++ t = s.text ++ u) : r.Indistinct s ∧ t = u := by
  have halpha : ∀ {v}, StartsOff Char.isAlphanum v → StartsOff Char.isAlpha v := fun hv =>
    hv.mono fun _ => isAlphanum_of_isAlpha
  have hdigit : ∀ {v}, StartsOff Char.isAlphanum v → StartsOff Char.isDigit v := fun hv =>
    hv.mono fun _ => isAlphanum_of_isDigit
  have hnumeral : ∀ q : Register, StartsOff Char.isAlpha q.numeral := fun q =>
    q.within_numeral.startsOff fun _ => isAlpha_eq_false_of_isDigit
  rw [text_eq, text_eq, String.append_assoc, String.append_assoc] at h
  obtain ⟨hm, hrest⟩ := append_inj_of_within r.kind.within_mnemonic s.kind.within_mnemonic
    ((hnumeral r).append (halpha ht)) ((hnumeral s).append (halpha hu)) h
  have hkind := RegisterKind.mnemonic_injective hm
  obtain ⟨hn, htu⟩ := append_inj_of_within r.within_numeral s.within_numeral (hdigit ht) (hdigit hu) hrest
  refine ⟨⟨hkind, fun hr => ?_⟩, htu⟩
  have hs : s.kind.isSingle = false := hkind ▸ hr
  rw [numeral, numeral, hr, hs] at hn
  exact UInt32.toNat_inj.1 (Nat.repr_inj.1 hn)

theorem Indistinct.text_eq (h : r.Indistinct s) : r.text = s.text := by
  obtain ⟨hkind, hnumber⟩ := h
  unfold text
  rw [← hkind]
  split
  · rfl
  · rename_i hr
    rw [hnumber (by simpa using hr)]

end Register

/-! ## Sources -/

theorem Component.letter_injective : Function.Injective Component.letter := by
  intro a b h
  cases a <;> cases b <;> first | rfl | exact absurd h (by decide)

theorem Component.isAlpha_letter (c : Component) : c.letter.isAlpha = true := by cases c <;> rfl

theorem Modifier.mem_all (m : Modifier) : m ∈ Modifier.all := by cases m <;> decide

theorem Modifier.marks_injective : Function.Injective Modifier.marks := by
  have hnodup : (Modifier.all.map Modifier.marks).Nodup := by decide
  exact fun m n h => List.inj_on_of_nodup_map hnodup m.mem_all n.mem_all h

def Swizzle.mark (s : Swizzle) : String := if s = .identity then "" else "." ++ s.text

theorem Swizzle.text_injective : Function.Injective Swizzle.text := by
  intro s t h
  have hl := congrArg String.toList h
  simp only [Swizzle.text, String.toList_ofList, List.cons.injEq, and_true] at hl
  obtain ⟨hx, hy, hz, hw⟩ := hl
  cases s
  cases t
  simp only [Swizzle.mk.injEq]
  exact ⟨Component.letter_injective hx, Component.letter_injective hy, Component.letter_injective hz,
    Component.letter_injective hw⟩

theorem Swizzle.mark_injective : Function.Injective Swizzle.mark := by
  intro s t h
  rcases pointed_inj h with ⟨hs, ht⟩ | ⟨-, -, htext⟩
  · rw [hs, ht]
  · exact Swizzle.text_injective htext

theorem Swizzle.within_text (s : Swizzle) : Within Char.isAlpha s.text := by
  rw [Within, Swizzle.text, String.toList_ofList]
  simp [Component.isAlpha_letter]

namespace Source

variable {a b : Source}

theorem text_eq (a : Source) :
    a.text = a.modifier.marks.1 ++ (a.register.text ++ (a.modifier.marks.2 ++ a.swizzle.mark)) := by
  simp only [text, Swizzle.mark, String.append_assoc]

theorem startsOff_marks (m : Modifier) : StartsOff Char.isAlphanum m.marks.2 := by cases m <;> decide

theorem within_text (a : Source) : Within isWordChar a.text := by
  have hmarks : Within isWordChar a.modifier.marks.1 ∧ Within isWordChar a.modifier.marks.2 := by
    cases a.modifier <;> decide
  have hswizzle := word_of_alphanum (alphanum_of_alpha a.swizzle.within_text)
  rw [text_eq]
  exact hmarks.1.append ((word_of_alphanum a.register.within_text).append
    (hmarks.2.append (within_pointed rfl hswizzle)))

theorem indistinct_of_text_eq (h : a.text = b.text) : a.Indistinct b := by
  have hbehind : ∀ c : Source, StartsOff Char.isAlphanum (c.modifier.marks.2 ++ c.swizzle.mark) := fun c =>
    (startsOff_marks c.modifier).append (startsOff_pointed rfl)
  have hbefore : ∀ m : Modifier, Within (fun c => !c.isAlpha) m.marks.1 := by
    intro m
    cases m <;> decide
  have hafter : ∀ m : Modifier, Within (· != '.') m.marks.2 := by
    intro m
    cases m <;> decide
  rw [text_eq, text_eq] at h
  obtain ⟨hm₁, h⟩ := append_inj_of_within (hbefore a.modifier) (hbefore b.modifier) (a.register.startsOff_text _)
    (b.register.startsOff_text _) h
  obtain ⟨hregister, h⟩ := Register.text_append_inj (hbehind a) (hbehind b) h
  obtain ⟨hm₂, hswizzle⟩ := append_inj_of_within (hafter a.modifier) (hafter b.modifier) (startsOff_pointed rfl)
    (startsOff_pointed rfl) h
  exact ⟨hregister, Swizzle.mark_injective hswizzle, Modifier.marks_injective (Prod.ext hm₁ hm₂)⟩

theorem Indistinct.text_eq (h : a.Indistinct b) : a.text = b.text := by
  rw [Source.text_eq, Source.text_eq, h.modifier, h.swizzle, h.register.text_eq]

end Source

/-! ## Destinations -/

def WriteMask.mark (m : WriteMask) : String := if m.isFull then "" else "." ++ m.text

theorem WriteMask.letter_mem_text {m : WriteMask} {c : Component} : c.letter ∈ m.text.toList ↔ m.has c = true := by
  rw [WriteMask.text, String.toList_ofList, List.mem_map_of_injective Component.letter_injective, List.mem_filter]
  cases c <;> simp

theorem WriteMask.has_eq_iff {m n : WriteMask} : (∀ c, m.has c = n.has c) ↔ m.code % 16 = n.code % 16 := by
  have hbit : ∀ k : WriteMask, ∀ i, (k.code % 16).testBit i = (decide (i < 4) && k.code.testBit i) :=
    fun k i => Nat.testBit_mod_two_pow k.code 4 i
  constructor
  · intro h
    refine Nat.eq_of_testBit_eq fun i => ?_
    rw [hbit, hbit]
    match i with
    | 0 => exact congrArg _ (h .x)
    | 1 => exact congrArg _ (h .y)
    | 2 => exact congrArg _ (h .z)
    | 3 => exact congrArg _ (h .w)
    | i + 4 => simp
  · intro h c
    have hc : decide (c.code < 4) = true := by cases c <;> rfl
    have hm := hbit m c.code
    rw [h, hbit n, hc, Bool.true_and, Bool.true_and] at hm
    exact hm.symm

theorem WriteMask.text_eq_iff {m n : WriteMask} : m.text = n.text ↔ m.code % 16 = n.code % 16 := by
  rw [← has_eq_iff]
  constructor
  · intro h c
    rw [Bool.eq_iff_iff, ← letter_mem_text, h, letter_mem_text]
  · intro h
    rw [text, text, show m.has = n.has from funext h]

theorem WriteMask.indistinct_of_mark_eq {m n : WriteMask} (h : m.mark = n.mark) : m.Indistinct n := by
  rcases pointed_inj h with ⟨hm, hn⟩ | ⟨hm, hn, htext⟩
  · rw [beq_iff_eq.1 hm, beq_iff_eq.1 hn]
    exact ⟨rfl, Iff.rfl⟩
  · have hne : ∀ {k : WriteMask}, ¬ k.isFull = true → k ≠ .full := fun hk he => hk (beq_iff_eq.2 he)
    exact ⟨text_eq_iff.1 htext, iff_of_false (hne hm) (hne hn)⟩

theorem WriteMask.Indistinct.mark_eq {m n : WriteMask} (h : m.Indistinct n) : m.mark = n.mark := by
  have hfull : m.isFull = n.isFull := by
    rw [Bool.eq_iff_iff, isFull, isFull, beq_iff_eq, beq_iff_eq]
    exact h.full
  rw [mark, mark, hfull, text_eq_iff.2 h.components]

theorem WriteMask.within_text (m : WriteMask) : Within Char.isAlpha m.text := by
  rw [Within, WriteMask.text, String.toList_ofList, List.all_map, List.all_eq_true]
  exact fun c _ => c.isAlpha_letter

namespace Destination

variable {d e : Destination}

def hints (precision centroid : Bool) : String :=
  (if precision then "_pp" else "") ++ (if centroid then "_centroid" else "")

theorem text_eq (d : Destination) :
    d.text = d.register.text ++ (d.mask.mark ++ hints d.partialPrecision d.centroid) := by
  simp only [text, hints, WriteMask.mark, String.append_assoc]

theorem startsOff_hints {P : Char → Bool} (hP : P '_' = false) (p c : Bool) : StartsOff P (hints p c) := by
  cases p <;> cases c <;> simp [hints, StartsOff, hP]

theorem within_text (d : Destination) : Within isWordChar d.text := by
  have hhints : Within isWordChar (hints d.partialPrecision d.centroid) := by
    cases d.partialPrecision <;> cases d.centroid <;> decide
  have hmask := word_of_alphanum (alphanum_of_alpha d.mask.within_text)
  rw [text_eq]
  exact (word_of_alphanum d.register.within_text).append ((within_pointed rfl hmask).append hhints)

theorem indistinct_of_text_eq (h : d.text = e.text) : d.Indistinct e := by
  have hbehind : ∀ f : Destination, StartsOff Char.isAlphanum (f.mask.mark ++ hints f.partialPrecision f.centroid) :=
    fun f => (startsOff_pointed rfl).append (startsOff_hints rfl _ _)
  have hmark : ∀ m : WriteMask, Within (· != '_') m.mark := fun m =>
    within_pointed rfl (m.within_text.mono fun c hc => by
      rw [bne_iff_ne]
      rintro rfl
      exact absurd hc (by decide))
  rw [text_eq, text_eq] at h
  obtain ⟨hregister, h⟩ := Register.text_append_inj (hbehind d) (hbehind e) h
  obtain ⟨hmask, hhints⟩ := append_inj_of_within (hmark d.mask) (hmark e.mask) (startsOff_hints rfl _ _)
    (startsOff_hints rfl _ _) h
  have hflags : ∀ p c p' c', hints p c = hints p' c' → p = p' ∧ c = c' := by decide
  obtain ⟨hp, hc⟩ := hflags _ _ _ _ hhints
  exact ⟨hregister, WriteMask.indistinct_of_mark_eq hmask, hp, hc⟩

theorem Indistinct.text_eq (h : d.Indistinct e) : d.text = e.text := by
  rw [Destination.text_eq, Destination.text_eq, h.mask.mark_eq, h.partialPrecision, h.centroid, h.register.text_eq]

end Destination

/-! ## Operations -/

theorem TextureKind.mark_injective : Function.Injective TextureKind.mark := by
  intro k l h
  cases k <;> cases l <;> first | rfl | exact absurd h (by decide)

namespace Operation

open Bytecode (Shape shapeOf)

variable {o o' : Operation}

def stem : Shape → String
  | .nop => "nop"
  | .mov => "mov"
  | .unary op => op.mnemonic
  | .binary op => op.mnemonic
  | .ternary op => op.mnemonic
  | .declaration => "dcl"
  | .texld => "texld"
  | .definition => "def"

def mark : Operation → String
  | .declare k d => if d.register.kind = .samplerState then k.mark else ""
  | _ => ""

def words : Operation → List String
  | .define index v => ("c" ++ toString index.toNat) :: v.toList.map Lane.text
  | .declare _ d => [d.text]
  | o => o.dest?.toList.map Destination.text ++ o.sources.map Source.text

def behind : List String → String
  | [] => ""
  | w :: ws => " " ++ (w ++ listed ws)

theorem text_eq (o : Operation) : o.text = stem (shapeOf o) ++ (o.mark ++ behind o.words) := by
  have hline : ∀ m w ws, line m (w :: ws) = m ++ ("" ++ behind (w :: ws)) := by
    intro m w ws
    rw [line, intercalate_cons, behind, String.empty_append, String.append_assoc]
  cases o with
  | nop => rfl
  | declare k d =>
    show line _ [d.text] = _
    rw [hline, String.empty_append, String.append_assoc]
    rfl
  | _ => exact hline _ _ _

def shapes : List Shape :=
  [.nop, .mov, .unary .rcp, .unary .frc, .unary .rsq, .unary .abs, .unary .exp, .unary .log, .binary .add, .binary .sub,
    .binary .mul, .binary .max, .binary .min, .binary .dp3, .binary .dp4, .ternary .mad, .ternary .cmp, .ternary .sincos,
    .ternary .lrp, .ternary .dp2add, .declaration, .texld, .definition]

theorem mem_shapes (s : Shape) : s ∈ shapes := by
  cases s with
  | unary op => cases op <;> decide
  | binary op => cases op <;> decide
  | ternary op => cases op <;> decide
  | _ => decide

theorem stem_injective : Function.Injective stem := by
  have hnodup : (shapes.map stem).Nodup := by decide
  exact fun s t h => List.inj_on_of_nodup_map hnodup (mem_shapes s) (mem_shapes t) h

theorem within_stem (s : Shape) : Within Char.isAlphanum (stem s) := by
  have hall : ∀ s ∈ shapes, Within Char.isAlphanum (stem s) := by decide
  exact hall s (mem_shapes s)

theorem mark_cases (o : Operation) : o.mark = "" ∨ ∃ k : TextureKind, o.mark = k.mark := by
  cases o with
  | declare k d =>
    by_cases hs : d.register.kind = .samplerState
    · exact .inr ⟨k, if_pos hs⟩
    · exact .inl (if_neg hs)
  | _ => exact .inl rfl

theorem startsOff_mark (o : Operation) : StartsOff Char.isAlphanum o.mark := by
  rcases o.mark_cases with h | ⟨k, h⟩
  · rw [h]
    decide
  · rw [h]
    cases k <;> decide

theorem within_mark (o : Operation) : Within isWordChar o.mark := by
  rcases o.mark_cases with h | ⟨k, h⟩
  · rw [h]
    decide
  · rw [h]
    cases k <;> decide

theorem within_words (o : Operation) : ∀ w ∈ o.words, Within isWordChar w := by
  intro w hw
  have hoperands : w ∈ o.dest?.toList.map Destination.text ++ o.sources.map Source.text → Within isWordChar w := by
    intro hw
    rcases List.mem_append.1 hw with hw | hw
    · obtain ⟨d, -, rfl⟩ := List.mem_map.1 hw
      exact d.within_text
    · obtain ⟨a, -, rfl⟩ := List.mem_map.1 hw
      exact a.within_text
  cases o with
  | define index v =>
    rcases List.mem_cons.1 hw with rfl | hw
    · exact Within.append (by decide) (word_of_alphanum (alphanum_of_digits (within_toString _)))
    · obtain ⟨a, -, rfl⟩ := List.mem_map.1 hw
      exact a.within_text
  | declare k d =>
    rw [List.mem_singleton.1 hw]
    exact d.within_text
  | _ => exact hoperands hw

theorem startsOff_behind {P : Char → Bool} (hP : P ' ' = false) (ws : List String) : StartsOff P (behind ws) := by
  cases ws with
  | nil => rfl
  | cons w ws => exact StartsOff.append_of_ne (by rw [StartsOff]; simp [hP]) (by decide)

theorem behind_inj : ∀ {ws ws' : List String}, (∀ w ∈ ws, Within isWordChar w) → (∀ w ∈ ws', Within isWordChar w) →
    behind ws = behind ws' → ws = ws'
  | [], [], _, _, _ => rfl
  | [], _ :: _, _, _, h => absurd (String.append_eq_empty_iff.1 h.symm).1 (by decide)
  | _ :: _, [], _, _, h => absurd (String.append_eq_empty_iff.1 h).1 (by decide)
  | w :: ws, w' :: ws', hw, hw', h => by
    -- from here on the words are a list with a comma before each
    refine listed_inj hw hw' ?_
    rw [listed, listed, (String.append_right_inj _).1 h]

theorem parts_of_text_eq (h : o.text = o'.text) : shapeOf o = shapeOf o' ∧ o.mark = o'.mark ∧ o.words = o'.words := by
  rw [text_eq, text_eq] at h
  obtain ⟨hstem, h⟩ := append_inj_of_within (within_stem _) (within_stem _)
    (o.startsOff_mark.append (startsOff_behind rfl _)) (o'.startsOff_mark.append (startsOff_behind rfl _)) h
  obtain ⟨hmark, h⟩ := append_inj_of_within o.within_mark o'.within_mark (startsOff_behind rfl _)
    (startsOff_behind rfl _) h
  exact ⟨stem_injective hstem, hmark, behind_inj o.within_words o'.within_words h⟩

theorem indistinct_of_text_eq (h : o.text = o'.text) : o.Indistinct o' := by
  obtain ⟨hshape, hmark, hwords⟩ := parts_of_text_eq h
  cases o with
  | nop => cases o' with
    | nop => exact .nop
    | _ => cases hshape
  | define index v => cases o' with
    | define index' v' =>
      obtain ⟨hindex, hv⟩ := List.cons.inj hwords
      have hindex := UInt32.toNat_inj.1 (Nat.repr_inj.1 ((String.append_right_inj _).1 hindex))
      subst hindex
      refine .define ((List.forall₂_map_left_iff.1 (List.forall₂_map_right_iff.1 (List.forall₂_eq_eq_eq ▸ hv))).imp ?_)
      exact fun _ _ => Lane.text_eq_iff.1
    | _ => cases hshape
  | declare k d => cases o' with
    | declare k' d' =>
      have hd := Destination.indistinct_of_text_eq (List.cons.inj hwords).1
      refine .declare hd fun hs => ?_
      have hs' : d'.register.kind = .samplerState := hd.register.kind ▸ hs
      rw [mark, mark, if_pos hs, if_pos hs'] at hmark
      exact TextureKind.mark_injective hmark
    | _ => cases hshape
  | texld d a b => cases o' with
    | texld d' a' b' =>
      obtain ⟨hd, h⟩ := List.cons.inj hwords
      obtain ⟨ha, h⟩ := List.cons.inj h
      obtain ⟨hb, -⟩ := List.cons.inj h
      exact .texld (Destination.indistinct_of_text_eq hd) (Source.indistinct_of_text_eq ha)
        (Source.indistinct_of_text_eq hb)
    | _ => cases hshape
  | mov d a => cases o' with
    | mov d' a' =>
      obtain ⟨hd, h⟩ := List.cons.inj hwords
      obtain ⟨ha, -⟩ := List.cons.inj h
      exact .mov (Destination.indistinct_of_text_eq hd) (Source.indistinct_of_text_eq ha)
    | _ => cases hshape
  | unary op d a => cases o' with
    | unary op' d' a' =>
      cases hshape
      obtain ⟨hd, h⟩ := List.cons.inj hwords
      obtain ⟨ha, -⟩ := List.cons.inj h
      exact .unary (Destination.indistinct_of_text_eq hd) (Source.indistinct_of_text_eq ha)
    | _ => cases hshape
  | binary op d a b => cases o' with
    | binary op' d' a' b' =>
      cases hshape
      obtain ⟨hd, h⟩ := List.cons.inj hwords
      obtain ⟨ha, h⟩ := List.cons.inj h
      obtain ⟨hb, -⟩ := List.cons.inj h
      exact .binary (Destination.indistinct_of_text_eq hd) (Source.indistinct_of_text_eq ha)
        (Source.indistinct_of_text_eq hb)
    | _ => cases hshape
  | ternary op d a b c => cases o' with
    | ternary op' d' a' b' c' =>
      cases hshape
      obtain ⟨hd, h⟩ := List.cons.inj hwords
      obtain ⟨ha, h⟩ := List.cons.inj h
      obtain ⟨hb, h⟩ := List.cons.inj h
      obtain ⟨hc, -⟩ := List.cons.inj h
      exact .ternary (Destination.indistinct_of_text_eq hd) (Source.indistinct_of_text_eq ha)
        (Source.indistinct_of_text_eq hb) (Source.indistinct_of_text_eq hc)
    | _ => cases hshape

theorem Indistinct.text_eq (h : o.Indistinct o') : o.text = o'.text := by
  cases h with
  | nop => rfl
  | @define index v w hv =>
    have htexts : v.toList.map Lane.text = w.toList.map Lane.text := by
      rw [← List.forall₂_eq_eq_eq, List.forall₂_map_left_iff, List.forall₂_map_right_iff]
      exact hv.imp fun _ _ => Lane.text_eq_iff.2
    rw [Operation.text, Operation.text, htexts]
  | @declare k l d e hd hk =>
    have hmark : (if d.register.kind = .samplerState then k.mark else "") =
        if e.register.kind = .samplerState then l.mark else "" := by
      rw [← hd.register.kind]
      split
      · rename_i hs
        rw [hk hs]
      · rfl
    rw [Operation.text, Operation.text, hmark, hd.text_eq]
  | texld hd ha hb => rw [Operation.text, Operation.text, hd.text_eq, ha.text_eq, hb.text_eq]
  | mov hd ha => rw [Operation.text, Operation.text, hd.text_eq, ha.text_eq]
  | unary hd ha => rw [Operation.text, Operation.text, hd.text_eq, ha.text_eq]
  | binary hd ha hb => rw [Operation.text, Operation.text, hd.text_eq, ha.text_eq, hb.text_eq]
  | ternary hd ha hb hc => rw [Operation.text, Operation.text, hd.text_eq, ha.text_eq, hb.text_eq, hc.text_eq]

theorem text_ne_parenthesis (o : Operation) (t : String) : o.text ≠ "(" ++ t := by
  intro h
  rw [text_eq, ← String.empty_append (s := "(" ++ t)] at h
  have hstem := (append_inj_of_within (P := Char.isAlphanum) (within_stem _) (by decide)
    (o.startsOff_mark.append (startsOff_behind rfl _)) (StartsOff.append_of_ne (by decide) (by decide)) h).1
  have hne : ∀ s ∈ shapes, stem s ≠ "" := by decide
  exact hne _ (mem_shapes _) hstem

theorem within_line_behind {ws : List String} (h : ∀ w ∈ ws, Within isWordChar w) :
    Within (· != '\n') (behind ws) := by
  cases ws with
  | nil => rfl
  | cons w ws =>
    have hws := within_line_listed fun u hu => h u (List.mem_cons_of_mem w hu)
    exact Within.append (by decide) ((line_of_word (h w List.mem_cons_self)).append hws)

theorem within_line_text (o : Operation) : Within (· != '\n') o.text := by
  rw [text_eq]
  exact (line_of_word (word_of_alphanum (within_stem _))).append
    ((line_of_word o.within_mark).append (within_line_behind o.within_words))

end Operation

/-! ## Instructions and programs -/

namespace Instruction

variable {i j : Instruction}

theorem indistinct_of_text_eq (h : i.text = j.text) : i.Indistinct j := by
  obtain ⟨o, p⟩ := i
  obtain ⟨o', p'⟩ := j
  cases p with
  | none => cases p' with
    | none => exact ⟨Operation.indistinct_of_text_eq h, .none⟩
    | some b =>
      refine absurd h ?_
      show o.text ≠ "(" ++ b.text ++ ") " ++ o'.text
      rw [String.append_assoc, String.append_assoc]
      exact o.text_ne_parenthesis _
  | some a => cases p' with
    | none =>
      refine absurd h.symm ?_
      show o'.text ≠ "(" ++ a.text ++ ") " ++ o.text
      rw [String.append_assoc, String.append_assoc]
      exact o'.text_ne_parenthesis _
    | some b =>
      change "(" ++ a.text ++ ") " ++ o.text = "(" ++ b.text ++ ") " ++ o'.text at h
      simp only [String.append_assoc, String.append_right_inj] at h
      obtain ⟨hp, h⟩ := append_inj_of_within a.within_text b.within_text
        (StartsOff.append_of_ne (by decide) (by decide)) (StartsOff.append_of_ne (by decide) (by decide)) h
      exact ⟨Operation.indistinct_of_text_eq ((String.append_right_inj _).1 h),
        .some (Source.indistinct_of_text_eq hp)⟩

theorem Indistinct.text_eq (h : i.Indistinct j) : i.text = j.text := by
  obtain ⟨o, p⟩ := i
  obtain ⟨o', p'⟩ := j
  obtain ⟨ho, hp⟩ := h
  cases hp with
  | none => exact ho.text_eq
  | some ha =>
    show "(" ++ _ ++ ") " ++ o.text = "(" ++ _ ++ ") " ++ o'.text
    rw [ho.text_eq, ha.text_eq]

theorem within_line_text (i : Instruction) : Within (· != '\n') i.text := by
  obtain ⟨o, p⟩ := i
  cases p with
  | none => exact o.within_line_text
  | some a =>
    exact ((Within.append (by decide) (line_of_word a.within_text)).append (by decide)).append
      o.within_line_text

end Instruction

namespace Program

def lines : List Instruction → String
  | [] => ""
  | i :: is => i.text ++ ("\n" ++ lines is)

theorem foldl_text : ∀ (is : List Instruction) (t : String),
    is.foldl (fun text i => text ++ i.text ++ "\n") t = t ++ lines is
  | [], t => by rw [List.foldl_nil, lines, String.append_empty]
  | i :: is, t => by rw [List.foldl_cons, foldl_text is, lines, String.append_assoc, String.append_assoc]

theorem disassembly_eq (p : Program) : p.disassembly = p.version.text ++ "\n" ++ lines p.instructions := foldl_text _ _

theorem lines_cons_ne (i : Instruction) (is : List Instruction) : lines (i :: is) ≠ "" := by
  intro h
  have hend := (String.append_eq_empty_iff.1 (String.append_eq_empty_iff.1 h).2).1
  exact absurd hend (by decide)

theorem lines_eq_iff : ∀ {is js : List Instruction}, lines is = lines js ↔ List.Forall₂ Instruction.Indistinct is js
  | [], [] => ⟨fun _ => .nil, fun _ => rfl⟩
  | [], j :: js => ⟨fun h => absurd h.symm (lines_cons_ne j js), fun h => by cases h⟩
  | i :: is, [] => ⟨fun h => absurd h (lines_cons_ne i is), fun h => by cases h⟩
  | i :: is, j :: js => by
    rw [lines, lines, List.forall₂_cons]
    constructor
    · intro h
      obtain ⟨hi, h⟩ := append_inj_of_within i.within_line_text j.within_line_text
        (StartsOff.append_of_ne (by decide) (by decide)) (StartsOff.append_of_ne (by decide) (by decide)) h
      exact ⟨Instruction.indistinct_of_text_eq hi, lines_eq_iff.1 ((String.append_right_inj _).1 h)⟩
    · rintro ⟨hi, his⟩
      rw [hi.text_eq, lines_eq_iff.2 his]

theorem version_text_append_inj {v w : ShaderVersion} {t u : String}
    (h : v.text ++ "\n" ++ t = w.text ++ "\n" ++ u) : v = w ∧ t = u := by
  simp only [ShaderVersion.text, String.append_assoc, String.append_right_inj] at h
  obtain ⟨hmajor, h⟩ := append_inj_of_within (within_toString _) (within_toString _)
    (StartsOff.append_of_ne (by decide) (by decide)) (StartsOff.append_of_ne (by decide) (by decide)) h
  obtain ⟨hminor, hrest⟩ := append_inj_of_within (within_toString _) (within_toString _)
    (StartsOff.append_of_ne (by decide) (by decide)) (StartsOff.append_of_ne (by decide) (by decide))
    ((String.append_right_inj _).1 h)
  obtain ⟨major, minor⟩ := v
  obtain ⟨major', minor'⟩ := w
  obtain rfl := UInt8.toNat_inj.1 (Nat.repr_inj.1 hmajor)
  obtain rfl := UInt8.toNat_inj.1 (Nat.repr_inj.1 hminor)
  exact ⟨rfl, (String.append_right_inj _).1 hrest⟩

/-- **The disassembly is unambiguous.**  It tells two programs apart by anything but what `Indistinct` leaves open. -/
theorem disassembly_eq_iff (p q : Program) :
    p.disassembly = q.disassembly ↔
      p.version = q.version ∧ List.Forall₂ Instruction.Indistinct p.instructions q.instructions := by
  rw [disassembly_eq, disassembly_eq]
  constructor
  · intro h
    obtain ⟨hversion, hlines⟩ := version_text_append_inj h
    exact ⟨hversion, lines_eq_iff.1 hlines⟩
  · rintro ⟨hversion, his⟩
    rw [hversion, lines_eq_iff.2 his]

def moveUnder (m : WriteMask) : Program :=
  .ofInstructions [{ operation := .mov { register := ⟨.temp, 0⟩, mask := m } { register := ⟨.constant, 0⟩ } }]

/-- A bit that stands for no component does not show, and tells two programs apart. -/
theorem disassembly_strayBit : (moveUnder ⟨0x11⟩).disassembly = "ps_2_0\nmov r0.x, c0\n" ∧
    (moveUnder ⟨0x01⟩).disassembly = "ps_2_0\nmov r0.x, c0\n" ∧ moveUnder ⟨0x11⟩ ≠ moveUnder ⟨0x01⟩ := by
  exact ⟨by decide +kernel, by decide +kernel, by decide⟩

end Program
end PixelShader
