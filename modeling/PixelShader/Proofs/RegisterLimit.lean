import Mathlib
import PixelShader.Proofs.Bytecode.Assemble
import PixelShader.Proofs.Kernel.Running
/-!
# The register limit

The decoder lets no register pass that a program cannot address.  Both strategies ask for the range of registers again,
since a program need not come from bytecode; when they object to a range, it is that of a register which the instruction
names and which is too high (`Fault.Justified`).  So of a decoded program they never do.
-/
namespace PixelShader

/-! ## Objections to a range -/

/-- If there is an objection to the range of a register, its number is one of `ns` and too high. -/
def RangedIn {α : Type} (ns : List UInt32) (x : Except Objection α) : Prop :=
  ∀ r, x = .error (.outOfRange r) → r.number ∈ ns ∧ registerSlots ≤ r.number.toNat

section
variable {α β : Type} {ns : List UInt32}

theorem rangedIn_ok (a : α) : RangedIn ns (.ok a) := fun r h => by cases h

theorem rangedIn_error {o : Objection} (ho : ∀ r, o ≠ .outOfRange r) : RangedIn ns (.error o : Except Objection α) :=
  fun r h => absurd (Except.error.inj h) (ho r)

theorem RangedIn.bind {x : Except Objection α} {f : α → Except Objection β} (hx : RangedIn ns x)
    (hf : ∀ a, RangedIn ns (f a)) : RangedIn ns (x >>= f) := by
  cases x with
  | error o => exact fun r h => hx r (congrArg Except.error (Except.error.inj h))
  | ok a => exact hf a

theorem rangedIn_unless {p : Prop} [Decidable p] {o : Objection} (ho : ∀ r, o ≠ .outOfRange r)
    {f : Unit → Except Objection α} (hf : RangedIn ns (f ())) : RangedIn ns (if p then throw o >>= f else f ()) := by
  split
  · exact rangedIn_error ho
  · exact hf

theorem Register.rangedIn_slot {r : Register} (h : r.number ∈ ns) : RangedIn ns r.slot := by
  unfold Register.slot
  split
  · exact rangedIn_ok _
  · rename_i hlt
    intro r' he
    cases he
    exact ⟨h, Nat.not_lt.1 hlt⟩

theorem Register.rangedIn_colorCell (r : Register) : RangedIn ns r.colorCell := by
  unfold Register.colorCell
  split
  · exact rangedIn_ok _
  · exact rangedIn_error fun _ h => by cases h

theorem Destination.rangedIn_cell {d : Destination} (h : d.register.number ∈ ns) : RangedIn ns d.cell := by
  unfold Destination.cell
  split
  · exact (Register.rangedIn_slot h).bind fun _ => rangedIn_ok _
  · exact Register.rangedIn_colorCell _
  · exact rangedIn_error fun _ h => by cases h

theorem Register.rangedIn_readCell {r : Register} (h : r.number ∈ ns) : RangedIn ns r.readCell := by
  unfold Register.readCell
  split
  · exact (Register.rangedIn_slot h).bind fun _ => rangedIn_ok _
  · exact (Register.rangedIn_slot h).bind fun _ => rangedIn_ok _
  · exact Register.rangedIn_colorCell _
  · split
    · exact rangedIn_ok _
    · exact rangedIn_error fun _ h => by cases h
  · exact rangedIn_error fun _ h => by cases h

theorem Modifier.rangedIn_negates (m : Modifier) : RangedIn ns m.negates := by
  unfold Modifier.negates
  split
  · exact rangedIn_ok _
  · exact rangedIn_ok _
  · exact rangedIn_error fun _ h => by cases h

theorem Source.rangedIn_cell {s : Source} (h : s.register.number ∈ ns) : RangedIn ns s.cell :=
  (Register.rangedIn_readCell h).bind fun _ => (Modifier.rangedIn_negates _).bind fun _ => rangedIn_ok _

theorem Source.rangedIn_samplerSlot {s : Source} (h : s.register.number ∈ ns) : RangedIn ns s.samplerSlot := by
  unfold Source.samplerSlot
  split
  · exact rangedIn_error fun _ h => by cases h
  · exact Register.rangedIn_slot h

theorem TernaryOp.rangedIn_checkMask (op : TernaryOp) (m : WriteMask) : RangedIn ns (op.checkMask m) := by
  unfold TernaryOp.checkMask WriteMask.checkSincos
  split
  · split
    · exact rangedIn_error fun _ h => by cases h
    · exact rangedIn_ok _
  · exact rangedIn_ok _

end

/-! ## Declarations and operands -/

theorem Declarations.rangedIn_add (ds : Declarations) (op : Operation) : RangedIn op.numbers (ds.add op) := by
  cases op with
  | define index value =>
    refine (Register.rangedIn_slot (r := ⟨.constant, index⟩) List.mem_cons_self).bind fun s => ?_
    exact rangedIn_unless (fun _ h => by cases h) (rangedIn_ok _)
  | declare texture d =>
    unfold Declarations.add
    simp only
    split
    · refine (Register.rangedIn_slot List.mem_cons_self).bind fun s => ?_
      exact rangedIn_unless (fun _ h => by cases h) (rangedIn_unless (fun _ h => by cases h) (rangedIn_ok _))
    · unfold Declarations.declareCoordinate
      exact rangedIn_unless (fun _ h => by cases h) (rangedIn_unless (fun _ h => by cases h)
        (rangedIn_unless (fun _ h => by cases h) (rangedIn_ok _)))
    · exact rangedIn_ok _
  | nop | texld | mov | unary | binary | ternary => exact rangedIn_ok _

section
variable {op : Operation}

theorem rangedIn_dest {d : Destination} (h : d ∈ op.dest?) : RangedIn op.numbers d.cell :=
  Destination.rangedIn_cell (Operation.number_mem_of_dest h)

theorem rangedIn_source {s : Source} (h : s ∈ op.sources) : RangedIn op.numbers s.cell :=
  Source.rangedIn_cell (Operation.number_mem_of_source h)

theorem rangedIn_sampler {s : Source} (h : s ∈ op.sources) : RangedIn op.numbers s.samplerSlot :=
  Source.rangedIn_samplerSlot (Operation.number_mem_of_source h)

end

theorem Operation.rangedIn_checkOperands (op : Operation) : RangedIn op.numbers op.checkOperands := by
  cases op with
  | nop | define | declare => exact rangedIn_ok _
  | texld d a b =>
    exact (rangedIn_dest rfl).bind fun _ => (rangedIn_source (by simp [sources])).bind fun _ =>
      (rangedIn_sampler (by simp [sources])).bind fun _ => rangedIn_ok _
  | mov d a =>
    exact (rangedIn_dest rfl).bind fun _ => (rangedIn_source (by simp [sources])).bind fun _ => rangedIn_ok _
  | unary op d a =>
    exact (rangedIn_dest rfl).bind fun _ => (rangedIn_source (by simp [sources])).bind fun _ => rangedIn_ok _
  | binary op d a b =>
    exact (rangedIn_dest rfl).bind fun _ => (rangedIn_source (by simp [sources])).bind fun _ =>
      (rangedIn_source (by simp [sources])).bind fun _ => rangedIn_ok _
  | ternary op d a b c =>
    exact (rangedIn_dest rfl).bind fun _ => (op.rangedIn_checkMask _).bind fun _ =>
      (rangedIn_source (by simp [sources])).bind fun _ => (rangedIn_source (by simp [sources])).bind fun _ =>
        (rangedIn_source (by simp [sources])).bind fun _ => rangedIn_ok _

theorem Interpreter.rangedIn_checkInstruction (state : Declarations × List Slot) (op : Operation) :
    RangedIn op.numbers (checkInstruction state op) := by
  refine (state.1.rangedIn_add op).bind fun x => op.rangedIn_checkOperands.bind fun _ => ?_
  refine RangedIn.bind ?_ fun _ => rangedIn_ok _
  cases op with
  | texld d a b => exact (rangedIn_sampler (by simp [Operation.sources])).bind fun _ => rangedIn_ok _
  | nop | define | declare | mov | unary | binary | ternary => exact rangedIn_ok _

namespace Kernel.Lower

def RangedIn {α : Type} (ns : List UInt32) (a : Lower α) : Prop := ∀ l, PixelShader.RangedIn ns (a l)

section
variable {α β : Type} {ns : List UInt32}

theorem rangedIn_pure (a : α) : RangedIn ns (pure a) := fun _ => rangedIn_ok _

theorem rangedIn_slot (find : Layout → Nat × Layout) : RangedIn ns (slot find) := fun _ => rangedIn_ok _

theorem RangedIn.bind {a : Lower α} {f : α → Lower β} (ha : RangedIn ns a) (hf : ∀ x, RangedIn ns (f x)) :
    RangedIn ns (a >>= f) := fun l => PixelShader.RangedIn.bind (ha l) fun x => hf x.1 x.2

theorem rangedIn_lift {x : Except Objection α} (hx : PixelShader.RangedIn ns x) : RangedIn ns (liftM x) := fun _ =>
  PixelShader.RangedIn.bind hx fun _ => rangedIn_ok _

end

theorem rangedIn_operation (op : Operation) : RangedIn op.numbers (operation op) := by
  have hoperand : ∀ s ∈ op.sources, RangedIn op.numbers (operand s) := fun s hs =>
    (rangedIn_lift (rangedIn_source hs)).bind fun x => (rangedIn_slot _).bind fun n => rangedIn_pure _
  have htarget : ∀ d ∈ op.dest?, RangedIn op.numbers (target d) := fun d hd => by
    refine (rangedIn_lift (rangedIn_dest hd)).bind fun c => (rangedIn_slot _).bind fun n => ?_
    split
    · exact rangedIn_pure _
    · exact (rangedIn_slot _).bind fun m => rangedIn_pure _
  cases op with
  | nop | define | declare => exact rangedIn_pure _
  | texld d a b =>
    exact (htarget d rfl).bind fun _ => (hoperand a (by simp [Operation.sources])).bind fun _ =>
      (rangedIn_lift (rangedIn_sampler (by simp [Operation.sources]))).bind fun _ => (rangedIn_slot _).bind fun _ =>
        rangedIn_pure _
  | mov d a =>
    exact (htarget d rfl).bind fun _ => (hoperand a (by simp [Operation.sources])).bind fun _ => rangedIn_pure _
  | unary op d a =>
    exact (htarget d rfl).bind fun _ => (hoperand a (by simp [Operation.sources])).bind fun _ => rangedIn_pure _
  | binary op d a b =>
    exact (htarget d rfl).bind fun _ => (hoperand a (by simp [Operation.sources])).bind fun _ =>
      (hoperand b (by simp [Operation.sources])).bind fun _ => rangedIn_pure _
  | ternary op d a b c =>
    exact (rangedIn_lift (op.rangedIn_checkMask _)).bind fun _ => (htarget d rfl).bind fun _ =>
      (hoperand a (by simp [Operation.sources])).bind fun _ => (hoperand b (by simp [Operation.sources])).bind fun _ =>
        (hoperand c (by simp [Operation.sources])).bind fun _ => rangedIn_pure _

end Kernel.Lower

/-! ## Programs -/

/-- If the fault is an objection to the range of a register, the instruction is one of the list, and names the register,
and its number is too high. -/
def Fault.Justified (f : Fault) (is : List Instruction) : Prop :=
  ∀ n i r, f = .unsupported n i (.outOfRange r) → i ∈ is ∧ r.number ∈ i.numbers ∧ registerSlots ≤ r.number.toNat

theorem Fault.justified_head {α : Type} {i : Instruction} {x : Except Objection α} {o : Objection}
    (hx : RangedIn i.operation.numbers x) (ho : x = .error o) (index : Nat) (is : List Instruction) :
    (Fault.unsupported index i o).Justified (i :: is) := by
  rintro n i' r he
  cases he
  obtain ⟨hm, hlt⟩ := hx r ho
  exact ⟨List.mem_cons_self, List.mem_append_left _ hm, hlt⟩

theorem Fault.Justified.tail {f : Fault} {is : List Instruction} (h : f.Justified is) (i : Instruction) :
    f.Justified (i :: is) := by
  intro n j r he
  obtain ⟨hm, hj⟩ := h n j r he
  exact ⟨List.mem_cons_of_mem i hm, hj⟩

theorem Interpreter.check_justified : ∀ (is : List Instruction) (state : Declarations × List Slot) (index : Nat)
    (f : Fault), check state index is = .error f → f.Justified is
  | [], _, _, _, h => by cases h
  | i :: is, state, index, f, h => by
    unfold check at h
    split at h
    · rename_i o hc
      cases h
      exact Fault.justified_head (rangedIn_checkInstruction state i.operation) hc index is
    · exact (check_justified is _ (index + 1) f h).tail i

theorem Interpreter.ofProgram_justified {p : Program} {f : Fault} (h : ofProgram p = .error f) :
    f.Justified p.instructions := by
  unfold ofProgram at h
  cases hc : check ({}, []) 0 p.instructions with
  | error g =>
    rw [hc] at h
    cases h
    exact check_justified _ _ _ _ hc
  | ok state =>
    rw [hc] at h
    cases h

namespace Kernel

theorem declareAll_justified : ∀ (is : List Instruction) (ds : Declarations) (l : Layout) (index : Nat) (f : Fault),
    declareAll ds l index is = .error f → f.Justified is
  | [], _, _, _, _, h => by cases h
  | i :: is, ds, l, index, f, h => by
    rw [declareAll_cons] at h
    split at h
    · rename_i o ha
      cases h
      exact Fault.justified_head (ds.rangedIn_add i.operation) ha index is
    · exact (declareAll_justified is _ _ (index + 1) f h).tail i

theorem lowerAll_justified : ∀ (is : List Instruction) (l : Layout) (index : Nat) (done : Array Step) (f : Fault),
    lowerAll l index done is = .error f → f.Justified is
  | [], _, _, _, _, h => by cases h
  | i :: is, l, index, done, f, h => by
    unfold lowerAll at h
    split at h
    · rename_i o hl
      cases h
      exact Fault.justified_head (Lower.rangedIn_operation i.operation l) hl index is
    · exact (lowerAll_justified is _ (index + 1) _ f h).tail i

theorem compile_justified {p : Program} {f : Fault} (h : compile p = .error f) : f.Justified p.instructions := by
  rcases compile_eq_error h with hd | ⟨l, hl⟩
  · exact declareAll_justified _ _ _ _ _ hd
  · exact lowerAll_justified _ _ _ _ _ hl

end Kernel

/-- The program reads the constant of that number, and does not define it. -/
def Program.Requires (p : Program) (n : UInt32) : Prop :=
  (∃ i ∈ p.instructions, ∃ s ∈ i.operation.sources, s.register = ⟨.constant, n⟩) ∧
    ∀ i ∈ p.instructions, i.operation.defined? ≠ some n

instance (p : Program) (n : UInt32) : Decidable (p.Requires n) := inferInstanceAs (Decidable (_ ∧ _))

theorem Program.readsConstant_iff (p : Program) (s : Slot) : p.readsConstant s = true ↔
    ∃ i ∈ p.instructions, ∃ a ∈ i.operation.sources, a.register = ⟨.constant, UInt32.ofNat s⟩ := by
  simp only [readsConstant, List.any_eq_true, beq_iff_eq]

theorem Program.mem_externalConstants (p : Program) (s : Slot) :
    s ∈ p.externalConstants ↔ p.Requires (UInt32.ofNat s) := by
  rw [externalConstants, List.mem_filter, Bool.and_eq_true, Bool.not_eq_true', ← Bool.not_eq_true,
    p.readsConstant_iff, Kernel.definesConstant_iff, Requires]
  simp [List.mem_finRange]

theorem Program.requires_iff_of_lt {p : Program} {n : UInt32} (hlt : p.Requires n → n.toNat < registerSlots) :
    p.Requires n ↔ ∃ s ∈ p.externalConstants, UInt32.ofNat s = n := by
  constructor
  · intro hn
    have hs : UInt32.ofNat (⟨n.toNat, hlt hn⟩ : Slot) = n := UInt32.ofNat_toNat
    refine ⟨⟨n.toNat, hlt hn⟩, ?_, hs⟩
    rwa [mem_externalConstants, hs]
  · rintro ⟨s, hs, rfl⟩
    exact (p.mem_externalConstants s).1 hs

/-- Where all registers can be addressed, no constant that is required is left out. -/
theorem Program.requires_iff {p : Program} (hp : ∀ i ∈ p.instructions, i.Addressable) (n : UInt32) :
    p.Requires n ↔ ∃ s ∈ p.externalConstants, UInt32.ofNat s = n := by
  refine requires_iff_of_lt ?_
  rintro ⟨⟨i, hi, a, ha, hr⟩, -⟩
  have hn := hp i hi _ (List.mem_append_left _ (Operation.number_mem_of_source ha))
  rw [hr] at hn
  exact hn

namespace Bytecode

theorem Stream.length_le {leftOver : Bool} {ts : List UInt32} {is : List Instruction} (h : Stream leftOver ts is) :
    is.length ≤ ts.length := by
  induction h with
  | finished | stopped => exact Nat.zero_le _
  | comment _ _ ih =>
    rw [List.length_cons, List.length_append]
    omega
  | instruction hs _ ih =>
    rw [List.length_append, List.length_cons]
    cases hs <;> simp only [List.length_cons] <;> omega

/-- **A decoded program keeps to the register limit.**  All its registers can be addressed, the constants it defines
included; so neither strategy objects to the range of one, and the constants that it requires are all listed.  It has
fewer instructions than the bytes have tokens. -/
theorem decode_addressable (bytes : List UInt8) (p : Program) (h : decode bytes = .ok p) :
    (∀ i ∈ p.instructions, ∀ n ∈ i.numbers, n.toNat < 32) ∧
    (∀ index i r, Interpreter.ofProgram p ≠ .error (.unsupported index i (.outOfRange r))) ∧
    (∀ index i r, Kernel.compile p ≠ .error (.unsupported index i (.outOfRange r))) ∧
    (∀ n, p.Requires n → n.toNat < 32) ∧
    (∀ n, p.Requires n ↔ ∃ s ∈ p.externalConstants, UInt32.ofNat s = n) ∧
    p.instructions.length + 1 ≤ bytes.length / 4 := by
  obtain ⟨-, leftOver, ts, hs, hl, -⟩ := exists_stream_of_decode h
  have hp : ∀ i ∈ p.instructions, i.Addressable := fun i hi => (hs.encodable.1 i hi).1
  have hjust : ∀ {f : Fault}, f.Justified p.instructions → ∀ index i r, f ≠ .unsupported index i (.outOfRange r) := by
    intro f hf index i r he
    obtain ⟨hi, hr, hle⟩ := hf index i r he
    exact absurd (hp i hi _ hr) (Nat.not_lt.2 hle)
  refine ⟨hp, fun index i r he => ?_, fun index i r he => ?_, fun n hn => ?_, p.requires_iff hp, ?_⟩
  · exact hjust (Interpreter.ofProgram_justified he) index i r rfl
  · exact hjust (Kernel.compile_justified he) index i r rfl
  · obtain ⟨s, -, rfl⟩ := (p.requires_iff hp n).1 hn
    rw [toNat_slot]
    exact s.isLt
  · have := hs.length_le
    omega

/-- `glow` reads the last constant there is, and it is bound from outside. -/
theorem decode_glow_addressable :
    decode (bytesOfWords glowTokens) = .ok glow ∧ (∀ i ∈ glow.instructions, ∀ n ∈ i.numbers, n.toNat < 32) ∧
      (∀ index i r, Kernel.compile glow ≠ .error (.unsupported index i (.outOfRange r))) ∧
      glow.Requires 31 ∧ (∃ s ∈ glow.externalConstants, UInt32.ofNat s = 31) ∧ glow.instructions.length + 1 ≤ 21 := by
  have h : decode (bytesOfWords glowTokens) = .ok glow := by cbv
  have hr : glow.Requires 31 := by decide
  obtain ⟨hp, -, hk, -, hc, hl⟩ := decode_addressable _ _ h
  exact ⟨h, hp, hk, hr, (hc 31).1 hr, hl⟩

end Bytecode
end PixelShader
