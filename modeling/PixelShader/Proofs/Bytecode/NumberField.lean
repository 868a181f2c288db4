import Mathlib
import PixelShader.Proofs.Bytecode.Cutting
import PixelShader.Proofs.Supported
/-!
# The number field of operand tokens

The layout of a parameter token gives eleven bits to the number of its register, and the decoder reads ten of them.  So
an operand token of accepted bytecode has the number of its register in that field, or that number and the bit above the
ten (`Names.numberField_cases`).  The first is so of all operands exactly when none has that bit set; a number that is too
high is refused otherwise, but with the bit alone above it a register in range is read as another.

Which tokens are operands is told by the opcodes before them, without reading any (`operandsFrom`).
-/
namespace PixelShader

/-! ## The registers of a program -/

def Operation.registers : Operation → List Register
  | .define index _ => [⟨.constant, index⟩]
  | .declare _ d => [d.register]
  | o => o.dest?.toList.map (·.register) ++ o.sources.map (·.register)

def Instruction.registers (i : Instruction) : List Register :=
  i.operation.registers ++ i.predicate.toList.map (·.register)

def Program.registers (p : Program) : List Register := p.instructions.flatMap Instruction.registers

namespace Bytecode

open Reader

/-! ## The operand tokens of bytecode -/

/-- The roles of the tokens behind the first token of an item; none if it is the last item, or no item at all. -/
def rolesAnnounced (t : UInt32) : Option (List Role) :=
  if t.toNat % 0x10000 = 0xfffe then some (List.replicate (t.toNat / 0x10000 % 0x8000) .free)
  else (shape? (t.toNat % 0x10000)).map fun s => s.rolesBehind t

/-- The tokens that name registers, where the next tokens have the given roles. -/
def operandsFrom : List Role → List UInt32 → List UInt32
  | _, [] => []
  | [], t :: ts =>
    match rolesAnnounced t with
    | none => []
    | some roles => operandsFrom roles ts
  | .free :: roles, _ :: ts => operandsFrom roles ts
  | _ :: roles, t :: ts => t :: operandsFrom roles ts

/-- **The operand tokens of a byte string**: destinations, sources, what is declared and what is defined, and
predicates. -/
def operandTokens (bytes : List UInt8) : List UInt32 := operandsFrom [] (words bytes).tail

theorem operandsFrom_cons (t : UInt32) (ts : List UInt32) :
    operandsFrom [] (t :: ts) = ((rolesAnnounced t).map fun roles => operandsFrom roles ts).getD [] := by
  rw [operandsFrom]
  cases rolesAnnounced t <;> rfl

theorem operandsFrom_append (more : List Role) (rest : List UInt32) : ∀ {roles : List Role} {ts : List UInt32},
    roles.length = ts.length → operandsFrom (roles ++ more) (ts ++ rest) = operandsFrom roles ts ++ operandsFrom more rest
  | [], [], _ => rfl
  | .free :: roles, _ :: ts, h =>
    have ih : operandsFrom (roles ++ more) (ts ++ rest) = _ := operandsFrom_append more rest (Nat.succ.inj h)
    ih
  | .destination :: _, t :: _, h => congrArg (t :: ·) (operandsFrom_append more rest (Nat.succ.inj h))
  | .source :: _, t :: _, h => congrArg (t :: ·) (operandsFrom_append more rest (Nat.succ.inj h))

theorem operandsFrom_free : ∀ ts : List UInt32, operandsFrom (List.replicate ts.length .free) ts = []
  | [] => rfl
  | _ :: ts => operandsFrom_free ts

theorem rolesAnnounced_of_isEnd {t : UInt32} (h : IsEnd t) : rolesAnnounced t = none := by
  have h' : t.toNat % 0x10000 = 0xffff := h
  rw [rolesAnnounced, h']
  rfl

theorem rolesAnnounced_of_isComment {t : UInt32} {n : Nat} (h : IsComment t n) :
    rolesAnnounced t = some (List.replicate n .free) := by
  rw [rolesAnnounced, if_pos h.1, h.2]

theorem rolesAnnounced_of_hasOpcode {t : UInt32} {s : Shape} (h : s.HasOpcode (t.toNat % 0x10000)) :
    rolesAnnounced t = some (s.rolesBehind t) := by
  have hlt := h.lt
  rw [rolesAnnounced, if_neg (by omega), shape?_eq_some.2 h]
  rfl

/-! ## Operands and registers -/

def Names (t : UInt32) (r : Register) : Prop := readRegister t = .ok r ∧ r.number.toNat < 32

theorem IsDestination.names {t : UInt32} {d : Destination} (h : IsDestination t d) : Names t d.register := by
  refine ⟨?_, h.2⟩
  rw [readRegister_eq_map, h.1]
  rfl

theorem IsSource.names {t : UInt32} {s : Source} (h : IsSource t s) : Names t s.register :=
  ⟨readRegister_of_readSource h.1, h.2⟩

theorem Operands.names {s : Shape} {ts : List UInt32} {o : Operation} (h : Operands s ts o) :
    List.Forall₂ Names (operandsFrom s.roles ts) o.registers := by
  cases h with
  | nop => exact .nil
  | mov hd ha | unary _ hd ha => exact .cons hd.names (.cons ha.names .nil)
  | binary _ hd ha hb | texld hd ha hb => exact .cons hd.names (.cons ha.names (.cons hb.names .nil))
  | ternary _ hd ha hb hc => exact .cons hd.names (.cons ha.names (.cons hb.names (.cons hc.names .nil)))
  | declaration _ hd => exact .cons hd.names .nil
  | @definition t d x y z w hd hk hm =>
    have hr : (⟨.constant, d.register.number⟩ : Register) = d.register := by rw [← hk]
    refine .cons ?_ .nil
    rw [hr]
    exact hd.names

theorem Spells.names {ts : List UInt32} {i : Instruction} (h : Spells ts i) (rest : List UInt32) :
    ∃ us, operandsFrom [] (ts ++ rest) = us ++ operandsFrom [] rest ∧ List.Forall₂ Names us i.registers := by
  cases h with
  | @plain t ts s o ho hb hops =>
    refine ⟨operandsFrom s.roles ts ++ [], ?_, List.rel_append hops.names .nil⟩
    rw [List.cons_append, operandsFrom_cons, rolesAnnounced_of_hasOpcode ho, Shape.rolesBehind, if_neg (by simp [hb]),
      List.append_nil (operandsFrom _ _)]
    exact operandsFrom_append [] rest hops.length_roles.symm
  | @predicated t ts u s o q ho hb hops hq =>
    refine ⟨operandsFrom s.roles ts ++ [u], ?_, List.rel_append hops.names (.cons hq.names .nil)⟩
    rw [List.cons_append, operandsFrom_cons, rolesAnnounced_of_hasOpcode ho, Shape.rolesBehind, if_pos hb,
      List.append_assoc, List.append_assoc]
    exact operandsFrom_append [.source] ([u] ++ rest) hops.length_roles.symm

/-- **Operand by operand, the tokens of a stream name the registers of its instructions.** -/
theorem Stream.names {leftOver : Bool} {ts : List UInt32} {is : List Instruction} (h : Stream leftOver ts is) :
    List.Forall₂ Names (operandsFrom [] ts) (is.flatMap Instruction.registers) := by
  induction h with
  | finished => exact .nil
  | stopped rest ht =>
    rw [operandsFrom_cons, rolesAnnounced_of_isEnd ht]
    exact .nil
  | @comment t body rest is hc _ ih =>
    have hskip : operandsFrom (List.replicate body.length .free ++ []) (body ++ rest) = [] ++ operandsFrom [] rest := by
      rw [operandsFrom_append [] rest List.length_replicate, operandsFrom_free]
    rw [List.append_nil, List.nil_append] at hskip
    rw [operandsFrom_cons, rolesAnnounced_of_isComment hc, Option.map_some, Option.getD_some, hskip]
    exact ih
  | @instruction ts i rest is hs _ ih =>
    obtain ⟨us, hus, hnames⟩ := hs.names rest
    rw [hus, List.flatMap_cons]
    exact List.rel_append hnames ih

theorem names_of_decode {bytes : List UInt8} {p : Program} (h : decode bytes = .ok p) :
    List.Forall₂ Names (operandTokens bytes) p.registers := by
  obtain ⟨-, -, ts, out, hw, hr, rfl⟩ := decode_eq_ok_iff_readItems.1 h
  rw [operandTokens, hw]
  exact (readItems_eq_ok.1 hr).names

/-! ## What is read of the number -/

/-- The bits of a parameter token that are the number's by its layout. -/
def numberField (t : UInt32) : Nat := field t 0 11

theorem offset_of_kindOfCode {code : Nat} {k : RegisterKind} {offset : UInt32} (h : kindOfCode code = .ok (k, offset)) :
    offset = 0 ∨ 2048 ≤ offset.toNat ∧ offset.toNat ≤ 6144 := by
  unfold kindOfCode at h
  split at h
  all_goals first
    | (cases h; exact .inl rfl)
    | (cases h; exact .inr (by decide))
    | (split at h <;> cases h)

/-- Only the first banks can be addressed, so the number is what the ten low bits say. -/
theorem Names.number_eq {t : UInt32} {r : Register} (h : Names t r) : r.number.toNat = t.toNat % 1024 := by
  obtain ⟨hr, hlt⟩ := h
  obtain ⟨⟨k, offset⟩, hk, hpure⟩ := except_bind_eq_ok.1 hr
  cases hpure
  have hn : (UInt32.ofNat (field t 0 10)).toNat = t.toNat % 1024 := by
    have hmod := Nat.mod_lt t.toNat (show 0 < 1024 by decide)
    rw [field_eq, Nat.pow_zero, Nat.div_one]
    exact UInt32.toNat_ofNat_of_lt' (Nat.lt_trans hmod (by decide))
  rcases offset_of_kindOfCode hk with rfl | ⟨hlo, hhi⟩
  · simpa using hn
  · -- the upper banks are out of range
    have hlt' : (UInt32.ofNat (field t 0 10) + offset).toNat < 32 := hlt
    rw [UInt32.toNat_add, hn] at hlt'
    omega

theorem Names.numberField_cases {t : UInt32} {r : Register} (h : Names t r) :
    numberField t = r.number.toNat ∨ numberField t = r.number.toNat + 1024 := by
  have hn := h.number_eq
  rw [numberField, field_eq, Nat.pow_zero, Nat.div_one]
  omega

theorem forall₂_iff_left {α β : Type} {R S : α → β → Prop} {P : α → Prop} {l : List α} {l' : List β}
    (h : List.Forall₂ S l l') (hiff : ∀ a b, S a b → (R a b ↔ P a)) : List.Forall₂ R l l' ↔ ∀ a ∈ l, P a := by
  induction h with
  | nil => simp
  | cons hab _ ih => rw [List.forall₂_cons, List.forall_mem_cons, ih, hiff _ _ hab]

def InField (t : UInt32) (r : Register) : Prop := numberField t < 32 ∧ numberField t = r.number.toNat

instance (t : UInt32) (r : Register) : Decidable (InField t r) := inferInstanceAs (Decidable (_ ∧ _))

theorem Names.inField_iff {t : UInt32} {r : Register} (h : Names t r) : InField t r ↔ t.toNat.testBit 10 = false := by
  have hn := h.number_eq
  have hlt := h.2
  rw [InField, numberField, field_eq, Nat.pow_zero, Nat.div_one, Nat.testBit_eq_decide_div_mod_eq, decide_eq_false_iff_not]
  omega

/-- **Register numbers are read from ten of their eleven bits.**  In bytecode that decodes, each operand token has the
number of its register in its field, or has the highest bit of the field set besides.  So the registers are those in the
fields exactly when no operand token has that bit set.  An operand with any other number is refused. -/
theorem decode_numberField (bytes : List UInt8) :
    (∀ p, decode bytes = .ok p →
      List.Forall₂ (fun t r => r.number.toNat < 32 ∧
        (numberField t = r.number.toNat ∨ numberField t = r.number.toNat + 1024)) (operandTokens bytes) p.registers ∧
      (List.Forall₂ InField (operandTokens bytes) p.registers ↔
        ∀ t ∈ operandTokens bytes, t.toNat.testBit 10 = false)) ∧
    ∀ t ∈ operandTokens bytes, 32 ≤ numberField t → numberField t < 1024 ∨ 1056 ≤ numberField t →
      ∃ fault, decode bytes = .error fault := by
  refine ⟨fun p h => ⟨?_, ?_⟩, fun t ht hlo hhi => ?_⟩
  · exact (names_of_decode h).imp fun t r hr => ⟨hr.2, hr.numberField_cases⟩
  · exact forall₂_iff_left (names_of_decode h) fun t r hr => hr.inField_iff
  · cases h : decode bytes with
    | error fault => exact ⟨fault, rfl⟩
    | ok p =>
      have hall := (forall₂_iff_left (R := fun t _ => numberField t < 32 ∨ 1024 ≤ numberField t ∧ numberField t < 1056)
        (names_of_decode h) fun t r _ => Iff.rfl).1 ((names_of_decode h).imp fun t r hr => ?_)
      · have := hall t ht
        omega
      · have := hr.numberField_cases
        have := hr.2
        omega

def highConstantTokens : List UInt32 := [0xffff0200, 0x02000001, 0x800f0800, 0xa0e40400, 0x0000ffff]

def firstConstant : Program :=
  .ofInstructions [{ operation := .mov { register := ⟨.colorOut, 0⟩ } { register := ⟨.constant, 0⟩ } }]

/-- The constant 1024 is read as the constant 0, without a fault. -/
theorem decode_highConstant :
    decode (bytesOfWords highConstantTokens) = .ok firstConstant ∧
    0xa0e40400 ∈ operandTokens (bytesOfWords highConstantTokens) ∧ numberField 0xa0e40400 = 1024 ∧
    ¬ List.Forall₂ InField (operandTokens (bytesOfWords highConstantTokens)) firstConstant.registers := by
  have ho : operandTokens (bytesOfWords highConstantTokens) = [0x800f0800, 0xa0e40400] := by cbv
  rw [ho]
  exact ⟨by cbv, by decide, by decide, by decide⟩

end Bytecode
end PixelShader
