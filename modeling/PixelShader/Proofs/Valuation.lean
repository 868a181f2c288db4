import Mathlib
import PixelShader.Arithmetic
import PixelShader.Bindings
/-!
# What a program computes, cell by cell

Each strategy keeps registers in a form of its own.  What a program computes is said here without either form: a
valuation gives a value to every cell, and an instruction makes one valuation of another.  An instruction does one of
two things, it defines a constant (`Operation.predefine`) or it computes and writes (`Operation.compute`), and the order
of the two kinds is all that the strategies differ in.  `effectAll_eq_computeAll` says when that does not matter: where
no constant is read before its definition, all definitions may be made first.
-/
namespace PixelShader

abbrev Valuation := Cell → Quad

/-! ## Cells of operands -/

theorem Source.cell_eq_ok {s : Source} {c : Cell} {negate : Bool} :
    s.cell = .ok (c, negate) ↔ s.register.readCell = .ok c ∧ s.modifier.negates = .ok negate := by
  unfold Source.cell
  cases s.register.readCell with
  | error e => simp [bind, Except.bind]
  | ok c' => cases s.modifier.negates <;> simp [bind, Except.bind, pure, Except.pure]

theorem Register.slot_eq_ok {r : Register} {s : Slot} : r.slot = .ok s ↔ r.number = UInt32.ofNat s := by
  unfold Register.slot
  have hs := s.isLt
  split
  · rename_i h
    constructor
    · intro e
      cases e
      exact (UInt32.ofNat_toNat).symm
    · intro e
      congr 1
      apply Fin.ext
      show r.number.toNat = s.val
      rw [e, UInt32.toNat_ofNat_of_lt']
      exact Nat.lt_trans hs (by decide)
  · rename_i h
    constructor
    · intro e
      cases e
    · intro e
      exfalso
      apply h
      rw [e, UInt32.toNat_ofNat_of_lt' (Nat.lt_trans hs (by decide))]
      exact hs

def RegisterFile.kind : RegisterFile → RegisterKind
  | constant => .constant
  | temp => .temp
  | color => .colorOut
  | coordinate => .texture

def Cell.register (c : Cell) : Register := ⟨c.file.kind, UInt32.ofNat c.slot⟩

theorem Cell.register_injective : Function.Injective register := by
  rintro ⟨f, s⟩ ⟨f', s'⟩ h
  obtain ⟨hk, hn⟩ := Register.mk.inj h
  have hf : f = f' := by cases f <;> cases f' <;> first | rfl | cases hk
  have hs : (Register.mk f.kind (UInt32.ofNat s)).slot = .ok s := Register.slot_eq_ok.2 rfl
  have hs' : (Register.mk f.kind (UInt32.ofNat s)).slot = .ok s' := Register.slot_eq_ok.2 hn
  rw [hs] at hs'
  rw [hf, Except.ok.inj hs']

theorem Register.register_of_slot {r : Register} {file : RegisterFile} {c : Cell}
    (h : (return ⟨file, ← r.slot⟩ : Except Objection Cell) = .ok c) (hk : r.kind = file.kind) : c.register = r := by
  cases hs : r.slot with
  | error e => simp [hs, bind, Except.bind] at h
  | ok s =>
    simp only [hs, bind, Except.bind, pure, Except.pure, Except.ok.injEq] at h
    rw [← h, Cell.register, ← hk, ← Register.slot_eq_ok.1 hs]

theorem Register.register_of_readCell {r : Register} {c : Cell} (h : r.readCell = .ok c) : c.register = r := by
  unfold Register.readCell at h
  split at h
  · rename_i hk
    exact register_of_slot h hk
  · rename_i hk
    exact register_of_slot h hk
  · rename_i hk
    unfold Register.colorCell at h
    split at h <;> cases h
    rename_i hn
    exact congrArg₂ Register.mk hk.symm hn.symm
  · rename_i hk
    split at h <;> cases h
    rename_i hn
    exact congrArg₂ Register.mk hk.symm hn.symm
  · cases h

theorem Register.readCell_constant {r : Register} {s : Slot} (h : r.readCell = .ok ⟨.constant, s⟩) :
    r = ⟨.constant, UInt32.ofNat s⟩ := (register_of_readCell h).symm

theorem Destination.readCell_of_cell {d : Destination} {c : Cell} (h : d.cell = .ok c) :
    d.register.readCell = .ok c := by
  unfold Destination.cell at h
  unfold Register.readCell
  cases hk : d.register.kind <;> simp only [hk] at h ⊢ <;> first | exact h | cases h

theorem Destination.cell_file {d : Destination} {c : Cell} (h : d.cell = .ok c) :
    c.file = .temp ∨ c = .color := by
  unfold Destination.cell at h
  split at h
  · cases hs : d.register.slot with
    | error e => simp [hs, bind, Except.bind] at h
    | ok s =>
      simp only [hs, bind, Except.bind, pure, Except.pure, Except.ok.injEq] at h
      subst h
      exact .inl rfl
  · simp only [Register.colorCell] at h
    split at h
    · cases h
      exact .inr rfl
    · cases h
  · cases h

/-! ## Instructions on valuations -/

/-- The value of a source; one that cannot be read is zero. -/
def Source.value (s : Source) (σ : Valuation) : Quad :=
  match s.cell with
  | .ok (c, negate) => s.view negate (σ c)
  | .error _ => .zero

/-- The colour that the sampler of an operand has at a coordinate; without a sampler it is zero. -/
def Source.sampled (s : Source) (find : Slot → Option Sampler) (coordinate : Quad) : Quad :=
  match s.samplerSlot with
  | .ok slot => (find slot).elim .zero (·.sample coordinate)
  | .error _ => .zero

/-- What an operation computes from its sources, before it is masked. -/
def Operation.result (find : Slot → Option Sampler) (σ : Valuation) : Operation → Quad
  | .nop | .define .. | .declare .. => .zero
  | .texld _ coord sampler => sampler.sampled find (coord.value σ)
  | .mov _ a => a.value σ
  | .unary op _ a => op.apply (a.value σ)
  | .binary op _ a b => op.apply (a.value σ) (b.value σ)
  | .ternary op _ a b c => op.apply (a.value σ) (b.value σ) (c.value σ)

def Destination.assign (d : Destination) (value : Quad) (σ : Valuation) : Valuation :=
  match d.cell with
  | .ok c => Function.update σ c ((σ c).write value d.mask)
  | .error _ => σ

def Operation.compute (find : Slot → Option Sampler) (op : Operation) (σ : Valuation) : Valuation :=
  op.dest?.elim σ fun d => d.assign (op.result find σ) σ

def Operation.predefine (op : Operation) (σ : Valuation) : Valuation :=
  match op with
  | .define index value =>
    match (Register.mk .constant index).slot with
    | .ok s => Function.update σ ⟨.constant, s⟩ value
    | .error _ => σ
  | _ => σ

def Operation.effect (find : Slot → Option Sampler) (op : Operation) (σ : Valuation) : Valuation :=
  op.compute find (op.predefine σ)

def effectAll (find : Slot → Option Sampler) (is : List Instruction) (σ : Valuation) : Valuation :=
  is.foldl (fun σ i => i.operation.effect find σ) σ

def computeAll (find : Slot → Option Sampler) (is : List Instruction) (σ : Valuation) : Valuation :=
  is.foldl (fun σ i => i.operation.compute find σ) σ

def defineAll (is : List Instruction) (σ : Valuation) : Valuation :=
  is.foldl (fun σ i => i.operation.predefine σ) σ

@[simp] theorem computeAll_cons (find : Slot → Option Sampler) (i : Instruction) (is : List Instruction)
    (σ : Valuation) : computeAll find (i :: is) σ = computeAll find is (i.operation.compute find σ) := rfl

@[simp] theorem effectAll_nil (find : Slot → Option Sampler) (σ : Valuation) : effectAll find [] σ = σ := rfl

@[simp] theorem effectAll_cons (find : Slot → Option Sampler) (i : Instruction) (is : List Instruction)
    (σ : Valuation) : effectAll find (i :: is) σ = effectAll find is (i.operation.effect find σ) := rfl

@[simp] theorem defineAll_cons (i : Instruction) (is : List Instruction) (σ : Valuation) :
    defineAll (i :: is) σ = defineAll is (i.operation.predefine σ) := rfl

/-! ## What an instruction depends on -/

theorem Source.value_congr {s : Source} {σ τ : Valuation}
    (h : ∀ c negate, s.cell = .ok (c, negate) → σ c = τ c) : s.value σ = s.value τ := by
  unfold Source.value
  split
  · rename_i c negate hc
    rw [h c negate hc]
  · rfl

def Operation.operands : Operation → List Source
  | .texld _ coord _ => [coord]
  | op => op.sources

theorem Operation.mem_sources_of_mem_operands {op : Operation} {s : Source} (h : s ∈ op.operands) : s ∈ op.sources := by
  cases op with
  | texld d coord sampler => rw [List.mem_singleton.1 h]; simp [sources]
  | _ => exact h

def Operation.Reads (op : Operation) (c : Cell) : Prop :=
  ∃ s ∈ op.operands, ∃ negate, s.cell = .ok (c, negate)

theorem Operation.result_congr {op : Operation} {find : Slot → Option Sampler} {σ τ : Valuation}
    (h : ∀ c, op.Reads c → σ c = τ c) : op.result find σ = op.result find τ := by
  have hs : ∀ s ∈ op.operands, s.value σ = s.value τ := fun s hs =>
    Source.value_congr fun c negate hc => h c ⟨s, hs, negate, hc⟩
  cases op with
  | nop | define | declare => rfl
  | texld d coord sampler => simp only [result]; rw [hs coord (by simp [operands])]
  | mov d a => exact hs a (by simp [operands, sources])
  | unary op d a => simp only [result]; rw [hs a (by simp [operands, sources])]
  | binary op d a b =>
    simp only [result]
    rw [hs a (by simp [operands, sources]), hs b (by simp [operands, sources])]
  | ternary op d a b c =>
    simp only [result]
    rw [hs a (by simp [operands, sources]), hs b (by simp [operands, sources]), hs c (by simp [operands, sources])]

/-- Valuations that agree on some cells still do after an operation that reads no other cells. -/
theorem Operation.compute_eqOn {op : Operation} {find : Slot → Option Sampler} {σ τ : Valuation} {S : Set Cell}
    (hr : ∀ c, op.Reads c → c ∈ S) (h : Set.EqOn σ τ S) : Set.EqOn (op.compute find σ) (op.compute find τ) S := by
  have hv : op.result find σ = op.result find τ := Operation.result_congr fun c hc => h (hr c hc)
  unfold compute
  rw [hv]
  cases op.dest? with
  | none => exact h
  | some d =>
    intro c hc
    simp only [Option.elim_some, Destination.assign]
    cases d.cell with
    | error e => exact h hc
    | ok c' =>
      by_cases hcc : c = c'
      · subst hcc
        simp [h hc]
      · simp [hcc, h hc]

theorem computeAll_eqOn (find : Slot → Option Sampler) {S : Set Cell} : ∀ (is : List Instruction) (σ τ : Valuation),
    (∀ i ∈ is, ∀ c, i.operation.Reads c → c ∈ S) → Set.EqOn σ τ S →
      Set.EqOn (computeAll find is σ) (computeAll find is τ) S
  | [], _, _, _, h => h
  | i :: is, σ, τ, hr, h => by
    rw [computeAll_cons, computeAll_cons]
    exact computeAll_eqOn find is _ _ (fun j hj => hr j (List.mem_cons_of_mem i hj))
      (Operation.compute_eqOn (hr i List.mem_cons_self) h)

/-! ## Definitions made first -/

def Operation.defined? : Operation → Option UInt32
  | .define index _ => some index
  | _ => none

/-- No constant is read by an instruction that stands before its definition. -/
def Program.DefinesBeforeUse (p : Program) : Prop :=
  p.instructions.Pairwise fun earlier later =>
    ∀ s ∈ earlier.operation.sources, s.register.kind = .constant →
      later.operation.defined? ≠ some s.register.number

instance (p : Program) : Decidable p.DefinesBeforeUse :=
  inferInstanceAs (Decidable (p.instructions.Pairwise fun earlier later =>
    ∀ s ∈ earlier.operation.sources, s.register.kind = .constant →
      later.operation.defined? ≠ some s.register.number))

theorem Operation.predefine_apply_of_ne {op : Operation} {σ : Valuation} {c : Cell}
    (h : ∀ index ∈ op.defined?, ∀ s, c = ⟨.constant, s⟩ → index ≠ UInt32.ofNat s) : op.predefine σ c = σ c := by
  cases op with
  | define index value =>
    cases hs : (Register.mk .constant index).slot with
    | error e => simp only [predefine, hs]
    | ok s =>
      simp only [predefine, hs]
      apply Function.update_of_ne
      intro hc
      exact h index rfl s hc (Register.slot_eq_ok.1 hs)
  | _ => rfl

theorem Operation.predefine_apply_of_file {op : Operation} {σ : Valuation} {c : Cell} (h : c.file ≠ .constant) :
    op.predefine σ c = σ c :=
  op.predefine_apply_of_ne fun _ _ s hc => absurd (by rw [hc]) h

theorem defineAll_apply_of_file {c : Cell} (h : c.file ≠ .constant) : ∀ (is : List Instruction) (σ : Valuation),
    defineAll is σ c = σ c
  | [], _ => rfl
  | i :: is, σ => by rw [defineAll_cons, defineAll_apply_of_file h is, Operation.predefine_apply_of_file h]

theorem Operation.predefine_congr_apply {op : Operation} {σ τ : Valuation} {c : Cell} (h : σ c = τ c) :
    op.predefine σ c = op.predefine τ c := by
  cases op with
  | define index value =>
    cases hs : (Register.mk .constant index).slot with
    | error e => simpa only [predefine, hs] using h
    | ok s => simp only [predefine, hs, Function.update_apply, h]
  | _ => exact h

theorem defineAll_congr_apply {c : Cell} : ∀ (is : List Instruction) (σ τ : Valuation), σ c = τ c →
    defineAll is σ c = defineAll is τ c
  | [], _, _, h => h
  | i :: is, σ, τ, h => by
    rw [defineAll_cons, defineAll_cons]
    exact defineAll_congr_apply is _ _ (Operation.predefine_congr_apply h)

theorem defineAll_apply_of_defined {s : Slot} : ∀ (is : List Instruction) (σ τ : Valuation),
    (∃ i ∈ is, i.operation.defined? = some (UInt32.ofNat s)) →
      defineAll is σ ⟨.constant, s⟩ = defineAll is τ ⟨.constant, s⟩
  | [], _, _, h => by
    obtain ⟨i, hi, -⟩ := h
    cases hi
  | i :: is, σ, τ, h => by
    rw [defineAll_cons, defineAll_cons]
    by_cases hi : i.operation.defined? = some (UInt32.ofNat s)
    · apply defineAll_congr_apply
      cases ho : i.operation with
      | define index value =>
        rw [ho] at hi
        cases hi
        have hs : (Register.mk .constant (UInt32.ofNat s)).slot = .ok s := Register.slot_eq_ok.2 rfl
        simp [Operation.predefine, hs]
      | _ =>
        rw [ho] at hi
        cases hi
    · apply defineAll_apply_of_defined is
      obtain ⟨j, hj, hd⟩ := h
      rcases List.mem_cons.1 hj with rfl | hj
      · exact absurd hd hi
      · exact ⟨j, hj, hd⟩

theorem defineAll_apply_of_not_defined {s : Slot} : ∀ (is : List Instruction) (σ : Valuation),
    (∀ i ∈ is, i.operation.defined? ≠ some (UInt32.ofNat s)) → defineAll is σ ⟨.constant, s⟩ = σ ⟨.constant, s⟩
  | [], _, _ => rfl
  | i :: is, σ, h => by
    rw [defineAll_cons, defineAll_apply_of_not_defined is _ fun j hj => h j (List.mem_cons_of_mem i hj)]
    apply Operation.predefine_apply_of_ne
    rintro index hi s' hc rfl
    cases hc
    exact h i List.mem_cons_self hi

/-- A definition may be made before a computation that does not read the constant. -/
theorem Operation.compute_predefine {op d : Operation} {find : Slot → Option Sampler} {σ : Valuation}
    (h : ∀ index ∈ d.defined?, ∀ s ∈ op.sources, s.register ≠ ⟨.constant, index⟩) :
    op.compute find (d.predefine σ) = d.predefine (op.compute find σ) := by
  have hv : op.result find (d.predefine σ) = op.result find σ := by
    apply Operation.result_congr
    rintro c ⟨s, hs, negate, hc⟩
    apply Operation.predefine_apply_of_ne
    rintro index hi slot rfl rfl
    exact h _ hi s (mem_sources_of_mem_operands hs) (Register.readCell_constant (Source.cell_eq_ok.1 hc).1)
  unfold compute
  rw [hv]
  cases op.dest? with
  | none => rfl
  | some dest =>
    simp only [Option.elim_some, Destination.assign]
    cases hd : dest.cell with
    | error e => rfl
    | ok c =>
      have hf : c.file ≠ .constant := by
        rcases Destination.cell_file hd with hf | rfl
        · rw [hf]; decide
        · decide
      simp only [predefine_apply_of_file hf]
      cases d with
      | define index value =>
        simp only [predefine]
        split
        · exact Function.update_comm (fun hcc => hf (by rw [← hcc])) _ _ _
        · rfl
      | _ => rfl

theorem compute_defineAll {op : Operation} {find : Slot → Option Sampler} : ∀ (is : List Instruction) (σ : Valuation),
    (∀ i ∈ is, ∀ index ∈ i.operation.defined?, ∀ s ∈ op.sources, s.register ≠ ⟨.constant, index⟩) →
      op.compute find (defineAll is σ) = defineAll is (op.compute find σ)
  | [], _, _ => rfl
  | i :: is, σ, h => by
    rw [defineAll_cons, defineAll_cons, compute_defineAll is _ (fun j hj => h j (List.mem_cons_of_mem i hj)),
      Operation.compute_predefine (h i List.mem_cons_self)]

/-- **Where no constant is read before its definition, all definitions may be made first.** -/
theorem effectAll_eq_computeAll (find : Slot → Option Sampler) : ∀ (is : List Instruction) (σ : Valuation),
    (Program.ofInstructions is).DefinesBeforeUse → effectAll find is σ = computeAll find is (defineAll is σ)
  | [], _, _ => rfl
  | i :: is, σ, h => by
    rw [effectAll_cons, computeAll_cons, defineAll_cons, effectAll_eq_computeAll find is _ h.of_cons]
    congr 1
    refine (compute_defineAll is _ fun j hj index hi s hs hr => ?_).symm
    have hn := List.rel_of_pairwise_cons h hj s hs
    rw [hr] at hn
    exact hn rfl hi

end PixelShader
