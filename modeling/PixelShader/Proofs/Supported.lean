import Mathlib
import PixelShader.Interpreter
import PixelShader.Proofs.Valuation
/-!
# Supported operations

The operands of an operation are looked at three times: when an interpreter is made, when a kernel is compiled and, in
the interpreter, at every step.  The orders of the looks differ, but what they ask for does not, and `Supported` names
it. Here the first check and the interpreter's step are compared with it: the check passes exactly the supported
operations (`checkOperands_eq_ok`), and a step of one of them cannot be refused, whatever is in the registers
(`evaluate_total`). A step that is not refused does to the registers what the operation does to a valuation
(`evaluate_effect`).
-/
namespace PixelShader

theorem except_bind_eq_ok {ε α β : Type} {x : Except ε α} {f : α → Except ε β} {b : β} :
    (x >>= f) = .ok b ↔ ∃ a, x = .ok a ∧ f a = .ok b := by
  cases x with
  | error e => simp [bind, Except.bind]
  | ok a => simp [bind, Except.bind]

theorem exists_eq_ok_unit {ε : Type} {x : Except ε Unit} : (∃ u, x = .ok u) ↔ x = .ok () :=
  ⟨fun ⟨(), h⟩ => h, fun h => ⟨(), h⟩⟩

theorem lift_eq_ok {α : Type} {x : Except Objection α} {a : α} : Refusal.lift x = .ok a ↔ x = .ok a := by
  cases x <;> simp [Refusal.lift, Except.mapError]

/-! ## What is asked of an operation -/

def Operation.sampler? : Operation → Option Source
  | .texld _ _ sampler => some sampler
  | _ => none

def Operation.checkMask : Operation → Except Objection Unit
  | .ternary op d _ _ _ => op.checkMask d.mask
  | _ => .ok ()

/-- Nothing about the operands of the operation is objected to. -/
@[mk_iff]
structure Operation.Supported (op : Operation) : Prop where
  dest : ∀ d ∈ op.dest?, ∃ c, d.cell = .ok c
  operands : ∀ s ∈ op.operands, ∃ x, s.cell = .ok x
  sampler : ∀ s ∈ op.sampler?, ∃ slot, s.samplerSlot = .ok slot
  mask : op.checkMask = .ok ()

section
variable {d : Destination} {a b c : Source}

@[simp] theorem Operation.supported_nop : Operation.nop.Supported := by
  simp [supported_iff, dest?, operands, sources, sampler?, checkMask]

@[simp] theorem Operation.supported_define (index : UInt32) (v : Quad) : (Operation.define index v).Supported := by
  simp [supported_iff, dest?, operands, sources, sampler?, checkMask]

@[simp] theorem Operation.supported_declare (t : TextureKind) : (Operation.declare t d).Supported := by
  simp [supported_iff, dest?, operands, sources, sampler?, checkMask]

theorem Operation.supported_texld : (Operation.texld d a b).Supported ↔
    (∃ x, d.cell = .ok x) ∧ (∃ x, a.cell = .ok x) ∧ ∃ slot, b.samplerSlot = .ok slot := by
  simp [supported_iff, dest?, operands, sampler?, checkMask]

theorem Operation.supported_mov : (Operation.mov d a).Supported ↔ (∃ x, d.cell = .ok x) ∧ ∃ x, a.cell = .ok x := by
  simp [supported_iff, dest?, operands, sources, sampler?, checkMask]

theorem Operation.supported_unary (op : UnaryOp) : (Operation.unary op d a).Supported ↔
    (∃ x, d.cell = .ok x) ∧ ∃ x, a.cell = .ok x := by
  simp [supported_iff, dest?, operands, sources, sampler?, checkMask]

theorem Operation.supported_binary (op : BinaryOp) : (Operation.binary op d a b).Supported ↔
    (∃ x, d.cell = .ok x) ∧ (∃ x, a.cell = .ok x) ∧ ∃ x, b.cell = .ok x := by
  simp [supported_iff, dest?, operands, sources, sampler?, checkMask]

theorem Operation.supported_ternary (op : TernaryOp) : (Operation.ternary op d a b c).Supported ↔
    (∃ x, d.cell = .ok x) ∧ ((∃ x, a.cell = .ok x) ∧ (∃ x, b.cell = .ok x) ∧ ∃ x, c.cell = .ok x) ∧
      op.checkMask d.mask = .ok () := by
  simp [supported_iff, dest?, operands, sources, sampler?, checkMask]

end

/-- **The check passes exactly the supported operations.** -/
theorem Operation.checkOperands_eq_ok (op : Operation) : op.checkOperands = .ok () ↔ op.Supported := by
  cases op with
  | nop | define | declare => simp [checkOperands]
  | texld d a b =>
    simp only [checkOperands, supported_texld, except_bind_eq_ok, exists_and_right, pure, Except.pure, and_true]
  | mov d a =>
    simp only [checkOperands, supported_mov, except_bind_eq_ok, exists_and_right, pure, Except.pure, and_true]
  | unary op d a =>
    simp only [checkOperands, supported_unary, except_bind_eq_ok, exists_and_right, pure, Except.pure, and_true]
  | binary op d a b =>
    simp only [checkOperands, supported_binary, except_bind_eq_ok, exists_and_right, pure, Except.pure, and_true]
  | ternary op d a b c =>
    simp only [checkOperands, supported_ternary, except_bind_eq_ok, exists_and_right, pure, Except.pure, and_true,
      exists_eq_ok_unit]
    -- the mask is asked for between the destination and the sources
    exact and_congr_right fun _ => and_comm

/-! ## Declarations -/

def Declared.define : Declared → Valuation → Valuation
  | .constant s value, σ => Function.update σ ⟨.constant, s⟩ value
  | _, σ => σ

theorem Declarations.declareSampler_declares {ds ds' : Declarations} {t : TextureKind} {r : Register}
    {declared : Declared} (h : ds.declareSampler t r = .ok (declared, ds')) : ∃ s, declared = .sampler s := by
  simp only [declareSampler, except_bind_eq_ok] at h
  obtain ⟨s, -, h⟩ := h
  split at h
  · cases h
  · split at h
    · cases h
    · cases h
      exact ⟨s, rfl⟩

theorem Declarations.declareCoordinate_declares {ds ds' : Declarations} {d : Destination} {declared : Declared}
    (h : ds.declareCoordinate d = .ok (declared, ds')) : declared = .coordinate ∧ d.register.number = 0 := by
  simp only [declareCoordinate] at h
  split at h
  · cases h
  · split at h
    · cases h
    · rename_i hn
      split at h
      · cases h
      · cases h
        exact ⟨rfl, not_not.1 hn⟩

theorem Declarations.add_spec {ds ds' : Declarations} {op : Operation} {declared : Declared}
    (h : ds.add op = .ok (declared, ds')) :
    (∀ index ∈ op.defined?, ∃ s, (Register.mk .constant index).slot = .ok s) ∧
      ∀ σ, declared.define σ = op.predefine σ := by
  cases op with
  | define index value =>
    simp only [add, define, except_bind_eq_ok] at h
    obtain ⟨s, hs, h⟩ := h
    refine ⟨fun index' hi => ?_, fun σ => ?_⟩
    · cases hi
      exact ⟨s, hs⟩
    · split at h
      · cases h
      · cases h
        simp [Operation.predefine, hs, Declared.define]
  | declare texture d =>
    refine ⟨fun index' hi => (by cases hi), fun σ => ?_⟩
    simp only [add] at h
    split at h
    · obtain ⟨s, rfl⟩ := declareSampler_declares h
      rfl
    · rw [(declareCoordinate_declares h).1]
      rfl
    · cases h
      rfl
  | nop | texld | mov | unary | binary | ternary =>
    cases h
    exact ⟨fun index' hi => (by cases hi), fun σ => rfl⟩

/-! ## Registers as a valuation -/

theorem Registers.get_set (r : Registers) (c : Cell) (value : Quad) :
    (r.set c value).get = Function.update r.get c value := by
  obtain ⟨file, slot⟩ := c
  funext ⟨file', slot'⟩
  by_cases hf : file' = file
  · subst hf
    by_cases hs : slot' = slot
    · subst hs
      cases file' <;> simp [get, set]
    · have hne : ¬ slot.val = slot'.val := fun h => hs (Fin.ext h.symm)
      cases file' <;> simp [get, set, hs, Vector.getElem_set_ne, hne]
  · rw [Function.update_of_ne (by simp [hf])]
    cases file <;> cases file' <;> first | exact absurd rfl hf | rfl

theorem Registers.get_commit (r : Registers) (s : Store) :
    (r.commit s).get = Function.update r.get s.cell ((r.get s.cell).write s.value s.mask) :=
  r.get_set _ _

theorem Registers.read_eq_ok {r : Registers} {s : Source} {q : Quad} :
    r.read s = .ok q ↔ (∃ x, s.cell = .ok x) ∧ q = s.value r.get := by
  simp only [read, except_bind_eq_ok, lift_eq_ok, pure, Except.pure, Except.ok.injEq]
  constructor
  · rintro ⟨⟨c, negate⟩, hc, rfl⟩
    exact ⟨⟨_, hc⟩, by simp [Source.value, hc]⟩
  · rintro ⟨⟨⟨c, negate⟩, hc⟩, rfl⟩
    exact ⟨_, hc, by simp [Source.value, hc]⟩

theorem Destination.store_eq_ok {d : Destination} {value : Quad} {s : Store} :
    d.store value = .ok s ↔ ∃ c, d.cell = .ok c ∧ s = ⟨c, d.mask, value⟩ := by
  simp only [store, except_bind_eq_ok, lift_eq_ok, pure, Except.pure, Except.ok.injEq]
  exact ⟨fun ⟨c, hc, h⟩ => ⟨c, hc, h.symm⟩, fun ⟨c, hc, h⟩ => ⟨c, hc, h.symm⟩⟩

theorem SamplerTable.find_eq_ok {t : SamplerTable} {s : Source} {x : Sampler} :
    t.find s = .ok x ↔ ∃ slot, s.samplerSlot = .ok slot ∧ t.get slot = some x := by
  simp only [find, except_bind_eq_ok, lift_eq_ok]
  constructor
  · rintro ⟨slot, hs, h⟩
    cases ht : t.get slot with
    | none => simp [ht] at h
    | some y =>
      simp only [ht, pure, Except.pure, Except.ok.injEq] at h
      exact ⟨slot, hs, by rw [ht, h]⟩
  · rintro ⟨slot, hs, h⟩
    exact ⟨slot, hs, by rw [h]; rfl⟩

/-! ## Steps -/

/-- **A step of a supported operation is not refused**, if its sampler is at hand and its constant has a slot. -/
theorem Operation.evaluate_total {op : Operation} {t : SamplerTable} (r : Registers) (h : op.Supported)
    (hd : ∀ index ∈ op.defined?, ∃ s, (Register.mk .constant index).slot = .ok s)
    (ht : ∀ s ∈ op.sampler?, ∃ x, t.find s = .ok x) : ∃ w, op.evaluate t r = .ok w := by
  have hr : ∀ s ∈ op.operands, r.read s = .ok (s.value r.get) := fun s hs =>
    Registers.read_eq_ok.2 ⟨h.operands s hs, rfl⟩
  have hw : ∀ d ∈ op.dest?, ∀ v, ∃ w, d.store v = .ok w := fun d hd v => by
    obtain ⟨c, hc⟩ := h.dest d hd
    exact ⟨_, Destination.store_eq_ok.2 ⟨c, hc, rfl⟩⟩
  cases op with
  | nop | declare => exact ⟨_, rfl⟩
  | define index value =>
    obtain ⟨s, hs⟩ := hd index rfl
    exact ⟨_, by simp only [evaluate, lift_eq_ok.2 hs]; rfl⟩
  | texld d coord sampler =>
    obtain ⟨x, hx⟩ := ht sampler rfl
    obtain ⟨w, hw⟩ := hw d rfl (x.sample (coord.value r.get))
    exact ⟨some w, by simp [evaluate, except_bind_eq_ok, hr coord (by simp [operands]), hx, hw, pure, Except.pure]⟩
  | mov d a =>
    obtain ⟨w, hw⟩ := hw d rfl (a.value r.get)
    exact ⟨some w, by simp [evaluate, except_bind_eq_ok, hr a (by simp [operands, sources]), hw, pure, Except.pure]⟩
  | unary o d a =>
    obtain ⟨w, hw⟩ := hw d rfl (o.apply (a.value r.get))
    exact ⟨some w, by simp [evaluate, except_bind_eq_ok, hr a (by simp [operands, sources]), hw, pure, Except.pure]⟩
  | binary o d a b =>
    obtain ⟨w, hw⟩ := hw d rfl (o.apply (a.value r.get) (b.value r.get))
    exact ⟨some w, by
      simp [evaluate, except_bind_eq_ok, hr a (by simp [operands, sources]), hr b (by simp [operands, sources]), hw,
        pure, Except.pure]⟩
  | ternary o d a b c =>
    obtain ⟨w, hw⟩ := hw d rfl (o.apply (a.value r.get) (b.value r.get) (c.value r.get))
    have hm : o.checkMask d.mask = .ok () := h.mask
    exact ⟨some w, by
      simp [evaluate, except_bind_eq_ok, hr a (by simp [operands, sources]), hr b (by simp [operands, sources]),
        hr c (by simp [operands, sources]), hw, lift_eq_ok.2 hm, pure, Except.pure]⟩

def Registers.after (r : Registers) (w : Option Store) : Registers := w.elim r r.commit

theorem Destination.store_result {d : Destination} {value : Quad} {w : Option Store}
    (h : (d.store value >>= fun s => pure (some s)) = .ok w) : ∃ c, d.cell = .ok c ∧ w = some ⟨c, d.mask, value⟩ := by
  obtain ⟨s, hs, hw⟩ := except_bind_eq_ok.1 h
  obtain ⟨c, hc, rfl⟩ := store_eq_ok.1 hs
  cases hw
  exact ⟨c, hc, rfl⟩

/-- **What a step stores**: nothing, a constant that it defines, or its result in the cell of its destination. -/
theorem Operation.evaluate_cases {op : Operation} {t : SamplerTable} {r : Registers} {w : Option Store}
    (h : op.evaluate t r = .ok w) :
    (op.dest? = none ∧ op.defined? = none ∧ w = none) ∨
    (∃ index value s, op = .define index value ∧ (Register.mk .constant index).slot = .ok s ∧
      w = some ⟨⟨.constant, s⟩, .full, value⟩) ∨
    ∃ d c, op.dest? = some d ∧ op.defined? = none ∧ d.cell = .ok c ∧ w = some ⟨c, d.mask, op.result t.get r.get⟩ := by
  cases op with
  | nop | declare =>
    cases h
    exact .inl ⟨rfl, rfl, rfl⟩
  | define index value =>
    simp only [evaluate, except_bind_eq_ok, lift_eq_ok, pure, Except.pure, Except.ok.injEq] at h
    obtain ⟨s, hs, rfl⟩ := h
    exact .inr (.inl ⟨index, value, s, rfl, hs, rfl⟩)
  | texld d coord sampler =>
    obtain ⟨_, hq, h⟩ := except_bind_eq_ok.1 h
    obtain ⟨x, hx, h⟩ := except_bind_eq_ok.1 h
    obtain ⟨slot, hs, hget⟩ := SamplerTable.find_eq_ok.1 hx
    obtain ⟨c, hc, rfl⟩ := Destination.store_result h
    refine .inr (.inr ⟨d, c, rfl, rfl, hc, ?_⟩)
    simp only [result, Source.sampled, hs, hget, Option.elim_some, (Registers.read_eq_ok.1 hq).2]
  | mov d a =>
    obtain ⟨_, hq, h⟩ := except_bind_eq_ok.1 h
    obtain ⟨c, hc, rfl⟩ := Destination.store_result h
    exact .inr (.inr ⟨d, c, rfl, rfl, hc, by rw [result, (Registers.read_eq_ok.1 hq).2]⟩)
  | unary o d a =>
    obtain ⟨_, hq, h⟩ := except_bind_eq_ok.1 h
    obtain ⟨c, hc, rfl⟩ := Destination.store_result h
    exact .inr (.inr ⟨d, c, rfl, rfl, hc, by rw [result, (Registers.read_eq_ok.1 hq).2]⟩)
  | binary o d a b =>
    obtain ⟨_, ha, h⟩ := except_bind_eq_ok.1 h
    obtain ⟨_, hb, h⟩ := except_bind_eq_ok.1 h
    obtain ⟨c, hc, rfl⟩ := Destination.store_result h
    refine .inr (.inr ⟨d, c, rfl, rfl, hc, ?_⟩)
    rw [result, (Registers.read_eq_ok.1 ha).2, (Registers.read_eq_ok.1 hb).2]
  | ternary o d a b e =>
    obtain ⟨_, -, h⟩ := except_bind_eq_ok.1 h
    obtain ⟨_, ha, h⟩ := except_bind_eq_ok.1 h
    obtain ⟨_, hb, h⟩ := except_bind_eq_ok.1 h
    obtain ⟨_, he, h⟩ := except_bind_eq_ok.1 h
    obtain ⟨c, hc, rfl⟩ := Destination.store_result h
    refine .inr (.inr ⟨d, c, rfl, rfl, hc, ?_⟩)
    rw [result, (Registers.read_eq_ok.1 ha).2, (Registers.read_eq_ok.1 hb).2, (Registers.read_eq_ok.1 he).2]

theorem Operation.predefine_of_not_defined {op : Operation} (h : op.defined? = none) (σ : Valuation) :
    op.predefine σ = σ :=
  funext fun _ => op.predefine_apply_of_ne fun index hi => by rw [h] at hi; cases hi

/-- **What a step does to the registers is what its operation does to their valuation.** -/
theorem Operation.evaluate_effect {op : Operation} {t : SamplerTable} {r : Registers} {w : Option Store}
    (h : op.evaluate t r = .ok w) : (r.after w).get = op.effect t.get r.get := by
  rcases evaluate_cases h with ⟨hd, hn, rfl⟩ | ⟨index, value, s, rfl, hs, rfl⟩ | ⟨d, c, hd, hn, hc, rfl⟩
  · rw [effect, compute, hd, predefine_of_not_defined hn]
    rfl
  · simp only [Registers.after, Option.elim_some, Registers.get_commit, effect, compute, dest?, Option.elim_none,
      predefine, hs]
    rfl
  · rw [Registers.after, Option.elim_some, Registers.get_commit, effect, compute, hd, predefine_of_not_defined hn,
      Option.elim_some, Destination.assign, hc]

theorem Instruction.run_step {t : SamplerTable} {i : Instruction} {r : Registers} {w : Option Store}
    (h : i.operation.evaluate t r = .ok w) : (i.step t).run r = .ok () (r.after w) := by
  simp only [Instruction.step, EStateM.run, bind, EStateM.bind, get, getThe, MonadStateOf.get, EStateM.get, h]
  cases w <;> rfl

/-- **A run over supported instructions is not refused, and does to the registers what the instructions do to their
valuation.** -/
theorem run_stepAll {t : SamplerTable} : ∀ (is : List Instruction) (index : Nat) (r : Registers),
    (∀ i ∈ is, ∀ r, ∃ w, i.operation.evaluate t r = .ok w) →
      ∃ r', (stepAll t index is).run r = .ok () r' ∧ r'.get = effectAll t.get is r.get
  | [], _, r, _ => ⟨r, rfl, rfl⟩
  | i :: is, index, r, h => by
    obtain ⟨w, hw⟩ := h i List.mem_cons_self r
    obtain ⟨r', hr, hg⟩ := run_stepAll is (index + 1) (r.after w) fun j hj => h j (List.mem_cons_of_mem i hj)
    refine ⟨r', ?_, ?_⟩
    · have hs := Instruction.run_step hw
      simp only [EStateM.run] at hs hr
      simp only [stepAll, EStateM.run, bind, EStateM.bind, EStateM.adaptExcept, hs, hr]
    · rw [hg, effectAll_cons, Operation.evaluate_effect hw]

end PixelShader
