import Mathlib
import PixelShader.Proofs.Bytecode.Decode
/-!
# Decoding undoes assembling

A pattern says which fields of a token an instruction fixes.  Whatever the spare bits are, a token that matches the
pattern of an operand is read as that operand, so tokens that match the patterns of a program are a stream of its
instructions (`stream_of_matches`).  The other way round, what a stream spells can be encoded and takes as many tokens as
its patterns have, comments and the end not counted (`Stream.encodable`); so a decoded program can be assembled again,
into no more bytes than it was read from.
-/
namespace PixelShader

/-! ## Programs that can be assembled -/

/-- The numbers of the registers that an operation names, the constant that it defines included. -/
def Operation.numbers : Operation → List UInt32
  | .define index _ => [index]
  | .declare _ d => [d.register.number]
  | o => o.dest?.toList.map (·.register.number) ++ o.sources.map (·.register.number)

def Instruction.numbers (i : Instruction) : List UInt32 :=
  i.operation.numbers ++ i.predicate.toList.map (·.register.number)

def Instruction.Addressable (i : Instruction) : Prop := ∀ n ∈ i.numbers, n.toNat < registerSlots

instance (i : Instruction) : Decidable i.Addressable := List.decidableBAll _ i.numbers

theorem Instruction.addressable_iff (i : Instruction) : i.Addressable ↔
    (∀ n ∈ i.operation.numbers, n.toNat < registerSlots) ∧
      ∀ q ∈ i.predicate, q.register.number.toNat < registerSlots := by
  rw [Addressable, numbers, List.forall_mem_append, List.forall_mem_map]
  simp only [Option.mem_toList]
  exact Iff.rfl

def Operation.masks : Operation → List WriteMask
  | .declare _ d => [d.mask]
  | o => o.dest?.toList.map (·.mask)

/-- The instruction can be written down: its registers can be addressed, and its masks have bits for components only. -/
def Instruction.Encodable (i : Instruction) : Prop := i.Addressable ∧ ∀ m ∈ i.operation.masks, m.code < 16

instance (i : Instruction) : Decidable i.Encodable :=
  inferInstanceAs (Decidable (i.Addressable ∧ ∀ m ∈ i.operation.masks, m.code < 16))

theorem Operation.mask_mem_of_dest {o : Operation} {d : Destination} (h : d ∈ o.dest?) : d.mask ∈ o.masks := by
  cases o with
  | nop | define | declare => cases h
  | texld | mov | unary | binary | ternary =>
    cases h
    exact List.mem_cons_self

theorem Operation.number_mem_of_dest {o : Operation} {d : Destination} (h : d ∈ o.dest?) :
    d.register.number ∈ o.numbers := by
  cases o with
  | nop | define | declare => cases h
  | texld | mov | unary | binary | ternary =>
    cases h
    exact List.mem_cons_self

theorem Operation.number_mem_of_source {o : Operation} {s : Source} (h : s ∈ o.sources) :
    s.register.number ∈ o.numbers := by
  have hs : s.register.number ∈ o.sources.map (·.register.number) := List.mem_map_of_mem h
  cases o with
  | nop | define | declare => cases h
  | texld | mov | unary | binary | ternary => exact List.mem_append_right _ hs

theorem Component.ofCode_code_add (c : Component) (n : Nat) : ofCode (c.code + 4 * n) = c := by
  unfold ofCode
  rw [Nat.add_mul_mod_self_left]
  cases c <;> rfl

theorem Component.code_lt (c : Component) : c.code < 4 := by cases c <;> decide

theorem Swizzle.ofCode_code (s : Swizzle) : ofCode s.code = s := by
  have hx := s.x.code_lt
  have hy := s.y.code_lt
  have hz := s.z.code_lt
  have hw := s.w.code_lt
  have h₀ : s.code = s.x.code + 4 * (s.y.code + 4 * (s.z.code + 4 * (s.w.code + 4 * 0))) := by
    unfold code
    omega
  have h₁ : s.code / 4 = s.y.code + 4 * (s.z.code + 4 * (s.w.code + 4 * 0)) := by omega
  have h₂ : s.code / 16 = s.z.code + 4 * (s.w.code + 4 * 0) := by omega
  have h₃ : s.code / 64 = s.w.code + 4 * 0 := by omega
  rw [ofCode, h₁, h₂, h₃, h₀]
  simp only [Component.ofCode_code_add]

theorem Swizzle.code_lt (s : Swizzle) : s.code < 256 := by
  have hx := s.x.code_lt
  have hy := s.y.code_lt
  have hz := s.z.code_lt
  have hw := s.w.code_lt
  unfold code
  omega

theorem WriteMask.code_ofCode (n : Nat) : (ofCode n).code = n % 16 :=
  UInt8.toNat_ofNat_of_lt' (Nat.lt_trans (Nat.mod_lt n (by decide)) (by decide))

theorem WriteMask.ofCode_code {m : WriteMask} (h : m.code < 16) : ofCode m.code = m := by
  have hc := code_ofCode m.code
  rw [Nat.mod_eq_of_lt h] at hc
  exact congrArg WriteMask.mk (UInt8.toNat_inj.1 hc)

namespace Bytecode

/-! ## Tokens that match -/

@[simp] theorem Pattern.matches_nil (t : UInt32) : Pattern.Matches [] t := fun f hf => by cases hf

@[simp] theorem Pattern.matches_cons (f : FixedField) (p : Pattern) (t : UInt32) :
    Pattern.Matches (f :: p) t ↔ field t f.low f.width = f.value ∧ p.Matches t := List.forall_mem_cons

@[simp] theorem Pattern.matches_append (p q : Pattern) (t : UInt32) :
    Pattern.Matches (p ++ q) t ↔ p.Matches t ∧ q.Matches t := List.forall_mem_append

theorem beq_one_of_eq_toNat {n : Nat} {b : Bool} (h : n = b.toNat) : (n == 1) = b := by
  subst h
  cases b <;> rfl

theorem readRegister_of_matches {r : Register} {t : UInt32} (hr : r.number.toNat < registerSlots)
    (h : (registerPattern r).Matches t) : readRegister t = .ok r := by
  simp only [registerPattern, Pattern.matches_cons, Pattern.matches_nil, and_true] at h
  obtain ⟨hn, hhi, hlo⟩ := h
  have hk : kindCode t = codeOfKind r.kind := by
    unfold kindCode
    omega
  -- the number is read from one bit less than it may take
  have hn' : field t 0 10 = r.number.toNat := by
    rw [field_eq] at hn ⊢
    simp only [Nat.pow_zero, Nat.div_one, Nat.reducePow] at hn ⊢
    simp only [registerSlots] at hr
    omega
  have h₀ : UInt32.ofNat r.number.toNat + 0 = r.number := by simp
  simp only [readRegister, hk, kindOfCode_codeOfKind, hn', bind, Except.bind, pure, Except.pure, h₀]

theorem isDestination_of_matches {d : Destination} {t : UInt32} (hd : d.register.number.toNat < registerSlots)
    (h : (destinationPattern d).Matches t) : IsDestination t d := by
  simp only [destinationPattern, Pattern.matches_append, Pattern.matches_cons, Pattern.matches_nil, and_true] at h
  obtain ⟨hr, hm, hp, hc⟩ := h
  have hlt : d.mask.code < 16 := hm ▸ field_lt t 16 4
  refine ⟨?_, hd⟩
  simp only [readDestination, readRegister_of_matches hd hr, hm, beq_one_of_eq_toNat hp, beq_one_of_eq_toNat hc,
    WriteMask.ofCode_code hlt, bind, Except.bind, pure, Except.pure]

theorem isSource_of_matches {s : Source} {t : UInt32} (hs : s.register.number.toNat < registerSlots)
    (h : (sourcePattern s).Matches t) : IsSource t s := by
  simp only [sourcePattern, Pattern.matches_append, Pattern.matches_cons, Pattern.matches_nil, and_true] at h
  obtain ⟨hr, hw, hm⟩ := h
  refine ⟨?_, hs⟩
  simp only [readSource, readRegister_of_matches hs hr, hw, hm, modifierOfCode_codeOfModifier, Swizzle.ofCode_code,
    bind, Except.bind, pure, Except.pure]

theorem readTextureKind_of_matches {k : TextureKind} {t : UInt32}
    (h : Pattern.Matches [⟨27, 4, codeOfTexture k⟩] t) : readTextureKind t = k := by
  simp only [Pattern.matches_cons, Pattern.matches_nil, and_true] at h
  rw [readTextureKind, h]
  cases k <;> rfl

theorem eq_bits_of_matches {a : Lane} {t : UInt32} (h : (literalPattern a).Matches t) : t = a.bits := by
  simp only [literalPattern, Pattern.matches_cons, Pattern.matches_nil, and_true, field_eq, Nat.pow_zero,
    Nat.div_one] at h
  rw [Nat.mod_eq_of_lt t.toNat_lt] at h
  exact UInt32.toNat_inj.1 h

/-! ## Instructions that match -/

open List (Forall₂)

theorem exists_append_of_forall₂ {α β : Type} {R : α → β → Prop} : ∀ {l₁ l₂ : List α} {l : List β},
    Forall₂ R (l₁ ++ l₂) l → ∃ us vs, Forall₂ R l₁ us ∧ Forall₂ R l₂ vs ∧ l = us ++ vs
  | [], _, l, h => ⟨[], l, .nil, h, rfl⟩
  | a :: l₁, l₂, _, .cons ha h => by
    obtain ⟨us, vs, hus, hvs, rfl⟩ := exists_append_of_forall₂ h
    exact ⟨_ :: us, vs, .cons ha hus, hvs, rfl⟩

theorem operands_of_matches {o : Operation} {ts : List UInt32} (ho : ∀ n ∈ o.numbers, n.toNat < registerSlots)
    (h : Forall₂ Pattern.Matches (operandPatterns o) ts) : Operands (shapeOf o) ts o := by
  have hdest : ∀ d ∈ o.dest?, ∀ t, (destinationPattern d).Matches t → IsDestination t d := fun d hd t =>
    isDestination_of_matches (ho _ (Operation.number_mem_of_dest hd))
  have hsource : ∀ s ∈ o.sources, ∀ t, (sourcePattern s).Matches t → IsSource t s := fun s hs t =>
    isSource_of_matches (ho _ (Operation.number_mem_of_source hs))
  cases o with
  | nop =>
    cases h
    exact .nop
  | define index v =>
    rcases h with _ | ⟨hd, _ | ⟨hx, _ | ⟨hy, _ | ⟨hz, _ | ⟨hw, _ | _⟩⟩⟩⟩⟩
    have hd := isDestination_of_matches (ho index List.mem_cons_self) hd
    rw [eq_bits_of_matches hx, eq_bits_of_matches hy, eq_bits_of_matches hz, eq_bits_of_matches hw]
    exact .definition v.x.bits v.y.bits v.z.bits v.w.bits hd rfl rfl
  | declare k d =>
    rcases h with _ | ⟨hk, _ | ⟨hd, _ | _⟩⟩
    have hd := isDestination_of_matches (ho d.register.number List.mem_cons_self) hd
    rw [← readTextureKind_of_matches hk]
    exact .declaration _ hd
  | texld d a b =>
    rcases h with _ | ⟨hd, _ | ⟨ha, _ | ⟨hb, _ | _⟩⟩⟩
    exact .texld (hdest d rfl _ hd) (hsource a (by simp [Operation.sources]) _ ha)
      (hsource b (by simp [Operation.sources]) _ hb)
  | mov d a =>
    rcases h with _ | ⟨hd, _ | ⟨ha, _ | _⟩⟩
    exact .mov (hdest d rfl _ hd) (hsource a (by simp [Operation.sources]) _ ha)
  | unary op d a =>
    rcases h with _ | ⟨hd, _ | ⟨ha, _ | _⟩⟩
    exact .unary op (hdest d rfl _ hd) (hsource a (by simp [Operation.sources]) _ ha)
  | binary op d a b =>
    rcases h with _ | ⟨hd, _ | ⟨ha, _ | ⟨hb, _ | _⟩⟩⟩
    exact .binary op (hdest d rfl _ hd) (hsource a (by simp [Operation.sources]) _ ha)
      (hsource b (by simp [Operation.sources]) _ hb)
  | ternary op d a b c =>
    rcases h with _ | ⟨hd, _ | ⟨ha, _ | ⟨hb, _ | ⟨hc, _ | _⟩⟩⟩⟩
    exact .ternary op (hdest d rfl _ hd) (hsource a (by simp [Operation.sources]) _ ha)
      (hsource b (by simp [Operation.sources]) _ hb) (hsource c (by simp [Operation.sources]) _ hc)

theorem spells_of_matches {i : Instruction} {ts : List UInt32} (hi : i.Addressable)
    (h : Forall₂ Pattern.Matches (instructionPatterns i) ts) : Spells ts i := by
  obtain ⟨o, q⟩ := i
  obtain ⟨ho, hq⟩ := (Instruction.addressable_iff _).1 hi
  rcases h with _ | ⟨ht, h⟩
  rename_i t rest
  simp only [Pattern.matches_cons, Pattern.matches_nil, and_true] at ht
  obtain ⟨hop, hbit⟩ := ht
  have hop : (shapeOf o).HasOpcode (t.toNat % 0x10000) := .inl ((opcodeOf_eq t).symm.trans hop)
  have hbit : t.toNat.testBit 28 = q.isSome := (isPredicated_eq t).symm.trans (beq_one_of_eq_toNat hbit)
  obtain ⟨us, vs, hus, hvs, rfl⟩ := exists_append_of_forall₂ h
  have hus := operands_of_matches ho hus
  cases q with
  | none =>
    cases hvs
    rw [List.append_nil]
    exact .plain hop hbit hus
  | some q =>
    rcases hvs with _ | ⟨hv, _ | _⟩
    exact .predicated hop hbit hus (isSource_of_matches (hq q rfl) hv)

/-! ## Programs that match -/

theorem stream_of_matches (closed : Bool) : ∀ (is : List Instruction) (ts : List UInt32),
    (∀ i ∈ is, i.Addressable) →
      Forall₂ Pattern.Matches (is.flatMap instructionPatterns ++ if closed then [endPattern] else []) ts →
        Stream false ts is
  | [], ts, _, h => by
    cases closed with
    | false =>
      cases h
      exact .finished rfl
    | true =>
      rcases h with _ | ⟨ht, _ | _⟩
      simp only [endPattern, Pattern.matches_cons, Pattern.matches_nil, and_true] at ht
      exact .stopped [] ((opcodeOf_eq _).symm.trans ht)
  | i :: is, ts, hi, h => by
    rw [List.flatMap_cons, List.append_assoc] at h
    obtain ⟨us, vs, hus, hvs, rfl⟩ := exists_append_of_forall₂ h
    exact .instruction (spells_of_matches (hi i List.mem_cons_self) hus)
      (stream_of_matches closed is vs (fun j hj => hi j (List.mem_cons_of_mem i hj)) hvs)

/-! ## Tokens without spare bits -/

theorem codeOfKind_lt (k : RegisterKind) : codeOfKind k < 32 := by cases k <;> decide

theorem codeOfModifier_lt (m : Modifier) : codeOfModifier m < 16 := by cases m <;> decide

def Pattern.sum : Pattern → Nat
  | [] => 0
  | f :: p => f.value * 2 ^ f.low + Pattern.sum p

theorem Pattern.foldr_eq_sum : ∀ p : Pattern, p.foldr (fun f rest => (f.value <<< f.low) + rest) 0 = p.sum
  | [] => rfl
  | f :: p => by rw [List.foldr_cons, foldr_eq_sum p, Nat.shiftLeft_eq, sum]

theorem Pattern.matches_token {p : Pattern} (h : p.sum < 0x100000000)
    (hp : ∀ f ∈ p, p.sum / 2 ^ f.low % 2 ^ f.width = f.value) : p.Matches p.token := fun f hf => by
  have ht : p.token.toNat = p.sum := by
    rw [token, foldr_eq_sum, UInt32.toNat_ofNat_of_lt' h]
  rw [field_eq, ht, hp f hf]

theorem matches_token_destination {d : Destination} (hd : d.register.number.toNat < registerSlots)
    (hm : d.mask.code < 16) : (destinationPattern d).Matches (destinationPattern d).token := by
  have hk := codeOfKind_lt d.register.kind
  have hp := d.partialPrecision.toNat_le
  have hc := d.centroid.toNat_le
  have hhi : codeOfKind d.register.kind / 8 < 4 := by omega
  have hlo : codeOfKind d.register.kind % 8 < 8 := Nat.mod_lt _ (by decide)
  simp only [registerSlots] at hd
  apply Pattern.matches_token
  all_goals
    simp only [destinationPattern, registerPattern, List.cons_append, List.nil_append, Pattern.sum,
      Nat.reducePow, List.forall_mem_cons, List.not_mem_nil, false_imp_iff, implies_true, and_true]
    generalize codeOfKind d.register.kind / 8 = hi at *
    generalize codeOfKind d.register.kind % 8 = lo at *
    omega

theorem matches_token_source {s : Source} (hs : s.register.number.toNat < registerSlots) :
    (sourcePattern s).Matches (sourcePattern s).token := by
  have hk := codeOfKind_lt s.register.kind
  have hw := s.swizzle.code_lt
  have hm := codeOfModifier_lt s.modifier
  have hhi : codeOfKind s.register.kind / 8 < 4 := by omega
  have hlo : codeOfKind s.register.kind % 8 < 8 := Nat.mod_lt _ (by decide)
  simp only [registerSlots] at hs
  apply Pattern.matches_token
  all_goals
    simp only [sourcePattern, registerPattern, List.cons_append, List.nil_append, Pattern.sum,
      Nat.reducePow, List.forall_mem_cons, List.not_mem_nil, false_imp_iff, implies_true, and_true]
    generalize codeOfKind s.register.kind / 8 = hi at *
    generalize codeOfKind s.register.kind % 8 = lo at *
    omega

theorem matches_token_literal (a : Lane) : (literalPattern a).Matches (literalPattern a).token := by
  have ha := a.bits.toNat_lt
  apply Pattern.matches_token
  all_goals
    simp only [literalPattern, Pattern.sum, Nat.reducePow, List.forall_mem_cons, List.not_mem_nil,
      false_imp_iff, implies_true, and_true] at ha ⊢
    omega

theorem matches_token_texture (k : TextureKind) :
    Pattern.Matches [⟨27, 4, codeOfTexture k⟩] (Pattern.token [⟨27, 4, codeOfTexture k⟩]) := by
  cases k <;> decide

theorem matches_token_opcode (s : Shape) (b : Bool) :
    Pattern.Matches [⟨0, 16, s.opcode⟩, ⟨28, 1, b.toNat⟩] (Pattern.token [⟨0, 16, s.opcode⟩, ⟨28, 1, b.toNat⟩]) := by
  have hs : s.opcode < 0xfffe := Shape.HasOpcode.lt (.inl rfl)
  have hb := b.toNat_le
  apply Pattern.matches_token
  all_goals
    simp only [Pattern.sum, Nat.reducePow, List.forall_mem_cons, List.not_mem_nil, false_imp_iff,
      implies_true, and_true]
    omega

theorem matches_token_operands {o : Operation} (ho : ∀ n ∈ o.numbers, n.toNat < registerSlots)
    (hm : ∀ m ∈ o.masks, m.code < 16) {p : Pattern} (hp : p ∈ operandPatterns o) : p.Matches p.token := by
  have hboth : p ∈ o.dest?.toList.map destinationPattern ++ o.sources.map sourcePattern → p.Matches p.token := by
    intro hp
    rcases List.mem_append.1 hp with hp | hp
    · obtain ⟨d, hd, rfl⟩ := List.mem_map.1 hp
      have hd := Option.mem_toList.1 hd
      exact matches_token_destination (ho _ (Operation.number_mem_of_dest hd)) (hm _ (Operation.mask_mem_of_dest hd))
    · obtain ⟨s, hs, rfl⟩ := List.mem_map.1 hp
      exact matches_token_source (ho _ (Operation.number_mem_of_source hs))
  cases o with
  | nop => cases hp
  | define index v =>
    rcases List.mem_cons.1 hp with rfl | hp
    · exact matches_token_destination (ho index List.mem_cons_self) (show WriteMask.full.code < 16 by decide)
    · obtain ⟨a, -, rfl⟩ := List.mem_map.1 hp
      exact matches_token_literal a
  | declare k d =>
    rcases List.mem_cons.1 hp with rfl | hp
    · exact matches_token_texture k
    · obtain rfl := List.mem_singleton.1 hp
      exact matches_token_destination (ho d.register.number List.mem_cons_self) (hm d.mask List.mem_cons_self)
  | texld | mov | unary | binary | ternary => exact hboth hp

theorem matches_token_instruction {i : Instruction} (hi : i.Encodable) {p : Pattern}
    (hp : p ∈ instructionPatterns i) : p.Matches p.token := by
  obtain ⟨ho, hq⟩ := i.addressable_iff.1 hi.1
  rcases List.mem_cons.1 hp with rfl | hp
  · exact matches_token_opcode _ _
  · rcases List.mem_append.1 hp with hp | hp
    · exact matches_token_operands ho hi.2 hp
    · obtain ⟨q, hm, rfl⟩ := List.mem_map.1 hp
      exact matches_token_source (hq q (Option.mem_toList.1 hm))

theorem matches_tokens {p : Program} (hp : ∀ i ∈ p.instructions, i.Encodable) (closed : Bool) :
    Forall₂ Pattern.Matches (programPatterns closed p) ((programPatterns closed p).map Pattern.token) := by
  rw [List.forall₂_map_right_iff, List.forall₂_same]
  intro q hq
  rcases List.mem_append.1 hq with hq | hq
  · rcases List.mem_cons.1 hq with rfl | hq
    · decide
    · obtain ⟨i, hi, hq⟩ := List.mem_flatMap.1 hq
      exact matches_token_instruction (hp i hi) hq
  · cases closed with
    | false => cases hq
    | true =>
      obtain rfl := List.mem_singleton.1 hq
      decide

/-! ## What a stream spells can be assembled -/

theorem Operands.numbers_lt {s : Shape} {ts : List UInt32} {o : Operation} (h : Operands s ts o) :
    ∀ n ∈ o.numbers, n.toNat < registerSlots := by
  have hall : ∀ {d : Destination} {ss : List Source}, d.register.number.toNat < registerSlots →
      (∀ s ∈ ss, s.register.number.toNat < registerSlots) →
      ∀ n ∈ d.register.number :: ss.map (·.register.number), n.toNat < registerSlots :=
    fun hd hs => List.forall_mem_cons.2 ⟨hd, List.forall_mem_map.2 hs⟩
  cases h with
  | nop => exact fun n hn => by cases hn
  | mov hd ha | unary _ hd ha => exact hall hd.2 (List.forall_mem_singleton.2 ha.2)
  | binary _ hd ha hb | texld hd ha hb =>
    exact hall hd.2 (List.forall_mem_cons.2 ⟨ha.2, List.forall_mem_singleton.2 hb.2⟩)
  | ternary _ hd ha hb hc =>
    exact hall hd.2 (List.forall_mem_cons.2 ⟨ha.2, List.forall_mem_cons.2 ⟨hb.2, List.forall_mem_singleton.2 hc.2⟩⟩)
  | declaration _ hd | definition _ _ _ _ hd =>
    intro n hn
    obtain rfl := List.mem_singleton.1 hn
    exact hd.2

theorem IsDestination.mask_lt {t : UInt32} {d : Destination} (h : IsDestination t d) : d.mask.code < 16 := by
  obtain ⟨hd, -⟩ := h
  cases hr : readRegister t with
  | error fault => simp [readDestination, hr, bind, Except.bind] at hd
  | ok r =>
    simp only [readDestination, hr, bind, Except.bind, pure, Except.pure, Except.ok.injEq] at hd
    rw [← hd, WriteMask.code_ofCode]
    exact Nat.mod_lt _ (by decide)

theorem Operands.masks_lt {s : Shape} {ts : List UInt32} {o : Operation} (h : Operands s ts o) :
    ∀ m ∈ o.masks, m.code < 16 := by
  cases h with
  | nop | definition => exact fun m hm => by cases hm
  | mov hd | unary _ hd | binary _ hd | texld hd | ternary _ hd | declaration _ hd =>
    intro m hm
    obtain rfl := List.mem_singleton.1 hm
    exact hd.mask_lt

theorem Operands.length_eq {s : Shape} {ts : List UInt32} {o : Operation} (h : Operands s ts o) :
    (operandPatterns o).length = ts.length := by
  cases h <;> rfl

theorem Spells.encodable {ts : List UInt32} {i : Instruction} (h : Spells ts i) :
    i.Encodable ∧ (instructionPatterns i).length = ts.length := by
  cases h with
  | plain _ _ ho =>
    refine ⟨⟨(Instruction.addressable_iff _).2 ⟨ho.numbers_lt, fun q hq => by cases hq⟩, ho.masks_lt⟩, ?_⟩
    simp [instructionPatterns, ho.length_eq]
  | predicated _ _ ho hq =>
    refine ⟨⟨(Instruction.addressable_iff _).2 ⟨ho.numbers_lt, fun q' hq' => ?_⟩, ho.masks_lt⟩, ?_⟩
    · cases hq'
      exact hq.2
    · simp [instructionPatterns, ho.length_eq]

theorem Stream.encodable {leftOver : Bool} {ts : List UInt32} {is : List Instruction} (h : Stream leftOver ts is) :
    (∀ i ∈ is, i.Encodable) ∧ (is.flatMap instructionPatterns).length ≤ ts.length := by
  induction h with
  | finished | stopped => exact ⟨fun i hi => (by cases hi), Nat.zero_le _⟩
  | comment _ _ ih =>
    refine ⟨ih.1, ?_⟩
    rw [List.length_cons, List.length_append]
    omega
  | instruction hs _ ih =>
    obtain ⟨he, hl⟩ := hs.encodable
    rw [List.flatMap_cons, List.length_append, List.length_append, hl]
    exact ⟨List.forall_mem_cons.2 ⟨he, ih.1⟩, Nat.add_le_add_left ih.2 _⟩

/-! ## Bytecode of a program -/

theorem decode_of_stream {ts : List UInt32} {is : List Instruction} (h : Stream false ts is)
    (hl : (bytesOfWords (0xffff0200 :: ts)).length ≤ maxLength) :
    decode (bytesOfWords (0xffff0200 :: ts)) = .ok (.ofInstructions is) := by
  have hw : words (bytesOfWords (0xffff0200 :: ts)) = 0xffff0200 :: ts := by
    have := words_bytesOfWords_append (0xffff0200 :: ts) []
    rwa [List.append_nil, show words [] = [] from rfl, List.append_nil] at this
  have hr : ragged (bytesOfWords (0xffff0200 :: ts)) = false := by
    have := ragged_bytesOfWords_append (0xffff0200 :: ts) []
    rwa [List.append_nil] at this
  refine decode_eq_ok_iff_readItems.2 ⟨hl, fun he => ?_, ts, is.toArray, hw, ?_, rfl⟩
  · rw [he] at hw
    cases hw
  · rw [hr]
    exact readItems_eq_ok.2 h

theorem decode_of_matches {p : Program} {closed : Bool} {tokens : List UInt32} (hversion : p.version = .model20)
    (hp : ∀ i ∈ p.instructions, i.Addressable) (h : Forall₂ Pattern.Matches (programPatterns closed p) tokens)
    (hl : (bytesOfWords tokens).length ≤ maxLength) : decode (bytesOfWords tokens) = .ok p := by
  obtain ⟨_, is⟩ := p
  obtain rfl := hversion
  rcases h with _ | ⟨hv, h⟩
  simp only [versionPattern, Pattern.matches_cons, Pattern.matches_nil, and_true, field_eq, Nat.pow_zero,
    Nat.div_one] at hv
  rw [Nat.mod_eq_of_lt (UInt32.toNat_lt _)] at hv
  obtain rfl := UInt32.toNat_inj.1 (hv.trans (show 0xffff0200 = (0xffff0200 : UInt32).toNat from rfl))
  exact decode_of_stream (stream_of_matches closed is _ hp h) hl

theorem length_assemble (closed : Bool) (p : Program) :
    (assemble closed p).length = 4 * (programPatterns closed p).length := by
  rw [assemble, length_bytesOfWords, List.length_map]

theorem exists_stream_of_decode {bytes : List UInt8} {p : Program} (h : decode bytes = .ok p) :
    p.version = .model20 ∧ ∃ leftOver ts, Stream leftOver ts p.instructions ∧ 4 * (ts.length + 1) ≤ bytes.length ∧
      bytes.length ≤ maxLength := by
  obtain ⟨hl, -, ts, out, hw, hr, rfl⟩ := decode_eq_ok_iff_readItems.1 h
  obtain ⟨tail, hb, -⟩ := exists_bytesOfWords_append bytes
  refine ⟨rfl, ragged bytes, ts, readItems_eq_ok.1 hr, ?_, hl⟩
  rw [hb, hw, List.length_append, length_bytesOfWords, List.length_cons]
  exact Nat.le_add_right _ _

/-- **Decoding undoes assembling.**  A program of the model whose instructions can all be encoded, assembled with or
without an end token, is what its bytes decode to, whatever the spare bits of its tokens are.  And a decoded program,
assembled again without an end token, takes no more bytes than it was decoded from, and they decode to it. -/
theorem decode_assemble :
    (∀ (closed : Bool) (p : Program), p.version = .model20 → (∀ i ∈ p.instructions, i.Encodable) →
      (assemble closed p).length ≤ maxLength →
        decode (assemble closed p) = .ok p ∧
        ∀ tokens, Forall₂ Pattern.Matches (programPatterns closed p) tokens → decode (bytesOfWords tokens) = .ok p) ∧
    ∀ (bytes : List UInt8) (p : Program), decode bytes = .ok p →
      (assemble false p).length ≤ bytes.length ∧ decode (assemble false p) = .ok p := by
  constructor
  · intro closed p hversion hp hl
    have hown := matches_tokens hp closed
    have hp : ∀ i ∈ p.instructions, i.Addressable := fun i hi => (hp i hi).1
    refine ⟨decode_of_matches hversion hp hown hl, fun tokens ht => decode_of_matches hversion hp ht ?_⟩
    rwa [length_bytesOfWords, ← ht.length_eq, ← length_assemble]
  · intro bytes p h
    obtain ⟨hversion, leftOver, ts, hs, hl, hmax⟩ := exists_stream_of_decode h
    obtain ⟨hp, hlen⟩ := hs.encodable
    have hle : (assemble false p).length ≤ bytes.length := by
      rw [length_assemble]
      simp only [programPatterns, Bool.false_eq_true, if_false, List.append_nil, List.length_cons]
      omega
    exact ⟨hle, decode_of_matches hversion (fun i hi => (hp i hi).1) (matches_tokens hp false) (hle.trans hmax)⟩

/-- A definition with a NaN in it, a declaration, a predicated sample and a sum, with hints and a negated swizzle. -/
def glow : Program where
  instructions := [
    { operation := .define 5 ⟨.one, ⟨0x7fc00001⟩, ⟨0x80000000⟩, ⟨0x00000001⟩⟩ },
    { operation := .declare .flat { register := ⟨.samplerState, 3⟩ } },
    { operation := .texld { register := ⟨.temp, 1⟩, mask := .xy, partialPrecision := true } { register := ⟨.texture, 0⟩ }
        { register := ⟨.samplerState, 3⟩ }
      predicate := some { register := ⟨.predicate, 0⟩, swizzle := ⟨.x, .x, .x, .x⟩, modifier := .not } },
    { operation := .ternary .dp2add { register := ⟨.colorOut, 0⟩, mask := ⟨0x04⟩, centroid := true }
        { register := ⟨.temp, 1⟩, swizzle := ⟨.w, .z, .y, .x⟩, modifier := .negate } { register := ⟨.constant, 5⟩ }
        { register := ⟨.constant, 31⟩ } }]

/-- `glow` with lengths in its opcode tokens, and bit 31 set in its register tokens. -/
def glowTokens : List UInt32 :=
  [0xffff0200, 0x06000051, 0xa00f0005, 0x3f800000, 0x7fc00001, 0x80000000, 0x00000001, 0x0300001f, 0x90000000,
    0xa00f0803, 0x15000042, 0x80230001, 0xb0e40000, 0xa0e40803, 0xbd001000, 0x0500005a, 0x80440800, 0x811b0001,
    0xa0e40005, 0xa0e4001f, 0x0000ffff]

theorem decode_glow :
    (∀ i ∈ glow.instructions, i.Encodable) ∧ (assemble true glow).length ≤ maxLength ∧
      Forall₂ Pattern.Matches (programPatterns true glow) glowTokens ∧
      decode (bytesOfWords glowTokens) = .ok glow ∧ decode (assemble false glow) = .ok glow := by
  have he : ∀ i ∈ glow.instructions, i.Encodable := by decide
  have hl : (assemble true glow).length ≤ maxLength := by
    rw [length_assemble]
    decide
  have hm : Forall₂ Pattern.Matches (programPatterns true glow) glowTokens := by decide
  have hd := (decode_assemble.1 true glow rfl he hl).2 glowTokens hm
  exact ⟨he, hl, hm, hd, (decode_assemble.2 _ _ hd).2⟩

end Bytecode
end PixelShader
