import Mathlib
import PixelShader.Kernel.Compile
import PixelShader.Proofs.Kernel.Layout
/-!
# What lowering an operation makes

Lowering gives out slots as it goes, so a step is made in one layout and run in a larger one.  `Layout.Lowers` says what
a step of an operation is without the going: every operand is the slot that the layout has for its cell.  A step stays
one when the layout grows (`Lowers.mono`), and what lowering makes is one (`operation_spec`).  Which operations can be
lowered does not depend on the layout, it is the supported ones (`accepts_operation`).
-/
namespace PixelShader.Kernel

namespace Lower

theorem bind_eq_ok {α β : Type} {a : Lower α} {f : α → Lower β} {l : Layout} {r : β × Layout} :
    (a >>= f) l = .ok r ↔ ∃ y, a l = .ok y ∧ f y.1 y.2 = .ok r := by
  simp only [bind, StateT.bind]
  cases a l with
  | error e => simp [Except.bind]
  | ok y => simp [Except.bind]

theorem lift_eq_ok {α : Type} {x : Except Objection α} {l : Layout} {r : α × Layout} :
    (liftM x : Lower α) l = .ok r ↔ x = .ok r.1 ∧ r.2 = l := by
  obtain ⟨b, l'⟩ := r
  cases x with
  | error e => simp [liftM, monadLift, MonadLift.monadLift, StateT.lift, bind, Except.bind]
  | ok a =>
    simp [liftM, monadLift, MonadLift.monadLift, StateT.lift, bind, Except.bind, pure, Except.pure, eq_comm]

theorem pure_eq_ok {α : Type} {x : α} {l : Layout} {r : α × Layout} : (pure x : Lower α) l = .ok r ↔ r = (x, l) := by
  simp [pure, StateT.pure, Except.pure, eq_comm]

theorem slot_eq_ok {find : Layout → Nat × Layout} {l : Layout} {r : Nat × Layout} :
    slot find l = .ok r ↔ r = find l := by
  simp [slot, eq_comm]

theorem operand_eq_ok {s : Source} {l : Layout} {r : Operand × Layout} : operand s l = .ok r ↔
    ∃ c negate, s.cell = .ok (c, negate) ∧ r = (⟨(l.cell c).1, s.swizzle, negate⟩, (l.cell c).2) := by
  simp only [operand, bind_eq_ok, lift_eq_ok, slot_eq_ok, pure_eq_ok, exists_eq_left]
  constructor
  · rintro ⟨⟨⟨c, negate⟩, l'⟩, ⟨hc, hl⟩, rfl⟩
    cases hl
    exact ⟨c, negate, hc, rfl⟩
  · rintro ⟨c, negate, hc, rfl⟩
    exact ⟨((c, negate), l), ⟨hc, rfl⟩, rfl⟩

theorem target_eq_ok {d : Destination} {l : Layout} {r : Target × Layout} : target d l = .ok r ↔
    ∃ c, d.cell = .ok c ∧ r = if d.mask.isFull then (.full (l.cell c).1, (l.cell c).2)
      else (.masked (l.cell c).1 ((l.cell c).2.mask d.mask).1, ((l.cell c).2.mask d.mask).2) := by
  simp only [target, bind_eq_ok, lift_eq_ok, slot_eq_ok, exists_eq_left]
  constructor
  · rintro ⟨⟨c, l'⟩, ⟨hc, hl⟩, h⟩
    cases hl
    refine ⟨c, hc, ?_⟩
    split at h
    · rename_i hm
      rw [if_pos hm]
      exact pure_eq_ok.1 h
    · rename_i hm
      rw [if_neg hm]
      simpa only [bind_eq_ok, slot_eq_ok, pure_eq_ok, exists_eq_left] using h
  · rintro ⟨c, hc, rfl⟩
    refine ⟨(c, l), ⟨hc, rfl⟩, ?_⟩
    split
    · rfl
    · simp only [bind_eq_ok, slot_eq_ok, pure_eq_ok, exists_eq_left]

/-! ## Which operations are lowered -/

/-- The layouts in which something can be lowered are all or none. -/
def Accepts {α : Type} (a : Lower α) (P : Prop) : Prop := ∀ l, (∃ r, a l = .ok r) ↔ P

theorem accepts_pure {α : Type} (x : α) : Accepts (pure x : Lower α) True := fun l => by simp [pure_eq_ok]

theorem accepts_bind {α β : Type} {a : Lower α} {f : α → Lower β} {P Q : Prop} (ha : Accepts a P)
    (hf : ∀ x, Accepts (f x) Q) : Accepts (a >>= f) (P ∧ Q) := fun l => by
  simp only [bind_eq_ok]
  constructor
  · rintro ⟨r, y, hy, hr⟩
    exact ⟨(ha l).1 ⟨y, hy⟩, (hf y.1 y.2).1 ⟨r, hr⟩⟩
  · rintro ⟨hP, hQ⟩
    obtain ⟨y, hy⟩ := (ha l).2 hP
    obtain ⟨r, hr⟩ := (hf y.1 y.2).2 hQ
    exact ⟨r, y, hy, hr⟩

theorem accepts_lift {α : Type} (x : Except Objection α) : Accepts (liftM x : Lower α) (∃ a, x = .ok a) := fun l => by
  simp only [lift_eq_ok]
  exact ⟨fun ⟨r, h, _⟩ => ⟨r.1, h⟩, fun ⟨a, h⟩ => ⟨(a, l), h, rfl⟩⟩

theorem accepts_slot (find : Layout → Nat × Layout) : Accepts (slot find) True := fun l => by simp [slot_eq_ok]

theorem accepts_operand (s : Source) : Accepts (operand s) (∃ x, s.cell = .ok x) := fun l => by
  simp only [operand_eq_ok]
  exact ⟨fun ⟨_, c, negate, h, _⟩ => ⟨_, h⟩, fun ⟨⟨c, negate⟩, h⟩ => ⟨_, c, negate, h, rfl⟩⟩

theorem accepts_target (d : Destination) : Accepts (target d) (∃ c, d.cell = .ok c) := fun l => by
  simp only [target_eq_ok]
  exact ⟨fun ⟨_, c, h, _⟩ => ⟨c, h⟩, fun ⟨c, h⟩ => ⟨_, c, h, rfl⟩⟩

/-- **The operations that can be lowered are the supported ones.** -/
theorem accepts_operation (op : Operation) : Accepts (operation op) op.Supported := fun l => by
  cases op with
  | nop => exact (accepts_pure none l).trans (iff_of_true trivial Operation.supported_nop)
  | define index v => exact (accepts_pure none l).trans (iff_of_true trivial (Operation.supported_define index v))
  | declare t d => exact (accepts_pure none l).trans (iff_of_true trivial (Operation.supported_declare t))
  | texld d a b =>
    have h := accepts_bind (accepts_target d) (fun t => accepts_bind (accepts_operand a) fun o =>
      accepts_bind (accepts_lift b.samplerSlot) fun s => accepts_bind (accepts_slot (Layout.sampler s)) fun n =>
        accepts_pure (some (Step.mk t (.sample n o)))) l
    rw [Operation.supported_texld]
    simp only [and_true] at h
    exact h
  | mov d a =>
    have h := accepts_bind (accepts_target d) (fun t => accepts_bind (accepts_operand a) fun o =>
      accepts_pure (some (Step.mk t (.mov o)))) l
    rw [Operation.supported_mov]
    simp only [and_true] at h
    exact h
  | unary op d a =>
    have h := accepts_bind (accepts_target d) (fun t => accepts_bind (accepts_operand a) fun o =>
      accepts_pure (some (Step.mk t (.unary op o)))) l
    rw [Operation.supported_unary]
    simp only [and_true] at h
    exact h
  | binary op d a b =>
    have h := accepts_bind (accepts_target d) (fun t => accepts_bind (accepts_operand a) fun o₁ =>
      accepts_bind (accepts_operand b) fun o₂ => accepts_pure (some (Step.mk t (.binary op o₁ o₂)))) l
    rw [Operation.supported_binary]
    simp only [and_true] at h
    exact h
  | ternary op d a b c =>
    have h := accepts_bind (accepts_lift (op.checkMask d.mask)) (fun _ => accepts_bind (accepts_target d) fun t =>
      accepts_bind (accepts_operand a) fun o₁ => accepts_bind (accepts_operand b) fun o₂ =>
        accepts_bind (accepts_operand c) fun o₃ => accepts_pure (some (Step.mk t (.ternary op o₁ o₂ o₃)))) l
    rw [Operation.supported_ternary]
    simp only [and_true, exists_eq_ok_unit] at h
    -- here the mask is asked for before the destination
    exact h.trans ⟨fun ⟨hm, hd, hs⟩ => ⟨hd, hs, hm⟩, fun ⟨hd, hs, hm⟩ => ⟨hm, hd, hs⟩⟩

end Lower

/-! ## Steps of operations -/

namespace Layout

def Reads (l : Layout) (s : Source) (o : Operand) : Prop :=
  ∃ c, s.cell = .ok (c, o.negate) ∧ l.cell? c = some o.slot ∧ o.swizzle = s.swizzle

/-- The target has the cell of the destination, and the selectors of its mask if that is partial. -/
inductive Writes (l : Layout) (d : Destination) : Target → Prop
  | full {c : Cell} {n : Nat} : d.cell = .ok c → l.cell? c = some n → d.mask.isFull = true → Writes l d (.full n)
  | masked {c : Cell} {n m : Nat} : d.cell = .ok c → l.cell? c = some n → d.mask.isFull = false →
      l.mask? d.mask = some m → Writes l d (.masked n m)

/-- The step does in the layout what the operation says; an operation that only declares has none. -/
inductive Lowers (l : Layout) : Operation → Option Step → Prop
  | nop : Lowers l .nop none
  | define (index : UInt32) (value : Quad) : Lowers l (.define index value) none
  | declare (texture : TextureKind) (d : Destination) : Lowers l (.declare texture d) none
  | texld {d coord sampler t o s n} : l.Writes d t → l.Reads coord o → sampler.samplerSlot = .ok s →
      l.samplers[n]? = some s → Lowers l (.texld d coord sampler) (some ⟨t, .sample n o⟩)
  | mov {d a t o} : l.Writes d t → l.Reads a o → Lowers l (.mov d a) (some ⟨t, .mov o⟩)
  | unary (op : UnaryOp) {d a t o} : l.Writes d t → l.Reads a o → Lowers l (.unary op d a) (some ⟨t, .unary op o⟩)
  | binary (op : BinaryOp) {d a b t o₁ o₂} : l.Writes d t → l.Reads a o₁ → l.Reads b o₂ →
      Lowers l (.binary op d a b) (some ⟨t, .binary op o₁ o₂⟩)
  | ternary (op : TernaryOp) {d a b c t o₁ o₂ o₃} : l.Writes d t → l.Reads a o₁ → l.Reads b o₂ → l.Reads c o₃ →
      Lowers l (.ternary op d a b c) (some ⟨t, .ternary op o₁ o₂ o₃⟩)

section
variable {l l' : Layout}

theorem Reads.mono {s : Source} {o : Operand} (h : l.Reads s o) (g : l.Grows l') : l'.Reads s o := by
  obtain ⟨c, hc, hs, hw⟩ := h
  exact ⟨c, hc, g.cell hs, hw⟩

theorem Writes.mono {d : Destination} {t : Target} (h : l.Writes d t) (g : l.Grows l') : l'.Writes d t := by
  cases h with
  | full hc hs hm => exact .full hc (g.cell hs) hm
  | masked hc hs hm hk => exact .masked hc (g.cell hs) hm (g.mask hk)

theorem Grows.sampler (g : l.Grows l') {n : Nat} {s : Slot} (h : l.samplers[n]? = some s) :
    l'.samplers[n]? = some s := by
  obtain ⟨more, hm⟩ := g.samplers
  have hn : n < l.samplers.length := (List.getElem?_eq_some_iff.1 h).1
  rw [← hm, List.getElem?_append_left hn, h]

theorem Lowers.mono {op : Operation} {s : Option Step} (h : l.Lowers op s) (g : l.Grows l') : l'.Lowers op s := by
  cases h with
  | nop => exact .nop
  | define index value => exact .define index value
  | declare texture d => exact .declare texture d
  | texld hw hr hs hn => exact .texld (hw.mono g) (hr.mono g) hs (g.sampler hn)
  | mov hw hr => exact .mov (hw.mono g) (hr.mono g)
  | unary op hw hr => exact .unary op (hw.mono g) (hr.mono g)
  | binary op hw ha hb => exact .binary op (hw.mono g) (ha.mono g) (hb.mono g)
  | ternary op hw ha hb hc => exact .ternary op (hw.mono g) (ha.mono g) (hb.mono g) (hc.mono g)

end

end Layout

/-! ## What lowering makes -/

namespace Lower
variable {l l' : Layout}

theorem operand_spec {s : Source} {o : Operand} (h : operand s l = .ok (o, l')) :
    l.Grows l' ∧ l'.Reads s o ∧ l'.samplers = l.samplers := by
  obtain ⟨c, negate, hc, e⟩ := operand_eq_ok.1 h
  cases e
  obtain ⟨hg, hs⟩ := Layout.cell_grows c l
  exact ⟨hg, ⟨c, hc, hs, rfl⟩, Layout.samplers_cell c l⟩

theorem target_spec {d : Destination} {t : Target} (h : target d l = .ok (t, l')) :
    l.Grows l' ∧ l'.Writes d t ∧ l'.samplers = l.samplers := by
  obtain ⟨c, hc, e⟩ := target_eq_ok.1 h
  obtain ⟨hg, hs⟩ := Layout.cell_grows c l
  split at e
  · rename_i hm
    cases e
    exact ⟨hg, .full hc hs hm, Layout.samplers_cell c l⟩
  · rename_i hm
    cases e
    obtain ⟨hg', hs'⟩ := Layout.mask_grows d.mask (l.cell c).2
    refine ⟨hg.trans hg', .masked hc (hg'.cell hs) (by simpa using hm) hs', ?_⟩
    rw [Layout.samplers_mask, Layout.samplers_cell]

/-- **What lowering makes of an operation is a step of it**, and the layout has only grown. -/
theorem operation_spec {op : Operation} {s : Option Step} (h : operation op l = .ok (s, l')) :
    l.Grows l' ∧ l'.Lowers op s ∧ l'.samplers = op.note l.samplers := by
  cases op with
  | nop => cases pure_eq_ok.1 h; exact ⟨.refl l, .nop, rfl⟩
  | define index v => cases pure_eq_ok.1 h; exact ⟨.refl l, .define index v, rfl⟩
  | declare t d => cases pure_eq_ok.1 h; exact ⟨.refl l, .declare t d, rfl⟩
  | texld d coord sampler =>
    simp only [operation, bind_eq_ok, lift_eq_ok, slot_eq_ok, pure_eq_ok, exists_eq_left] at h
    obtain ⟨⟨t, l₁⟩, ht, ⟨o, l₂⟩, ho, ⟨slot, l₃⟩, ⟨hs, hl⟩, e⟩ := h
    cases hl
    cases e
    obtain ⟨g₁, hw, e₁⟩ := target_spec ht
    obtain ⟨g₂, hr, e₂⟩ := operand_spec ho
    obtain ⟨g₃, e₃, hn⟩ := Layout.sampler_grows slot l₂
    refine ⟨(g₁.trans g₂).trans g₃, .texld ((hw.mono g₂).mono g₃) (hr.mono g₃) hs hn, ?_⟩
    simp only [e₃, e₂, e₁, Operation.note, Operation.samplerSlot?, Operation.sampler?, Option.bind_some, hs,
      Except.toOption, Option.elim_some]
  | mov d a =>
    simp only [operation, bind_eq_ok, pure_eq_ok] at h
    obtain ⟨⟨t, l₁⟩, ht, ⟨o, l₂⟩, ho, e⟩ := h
    cases e
    obtain ⟨g₁, hw, e₁⟩ := target_spec ht
    obtain ⟨g₂, hr, e₂⟩ := operand_spec ho
    exact ⟨g₁.trans g₂, .mov (hw.mono g₂) hr, e₂.trans e₁⟩
  | unary op d a =>
    simp only [operation, bind_eq_ok, pure_eq_ok] at h
    obtain ⟨⟨t, l₁⟩, ht, ⟨o, l₂⟩, ho, e⟩ := h
    cases e
    obtain ⟨g₁, hw, e₁⟩ := target_spec ht
    obtain ⟨g₂, hr, e₂⟩ := operand_spec ho
    exact ⟨g₁.trans g₂, .unary op (hw.mono g₂) hr, e₂.trans e₁⟩
  | binary op d a b =>
    simp only [operation, bind_eq_ok, pure_eq_ok] at h
    obtain ⟨⟨t, l₁⟩, ht, ⟨o₁, l₂⟩, ho₁, ⟨o₂, l₃⟩, ho₂, e⟩ := h
    cases e
    obtain ⟨g₁, hw, e₁⟩ := target_spec ht
    obtain ⟨g₂, hr₁, e₂⟩ := operand_spec ho₁
    obtain ⟨g₃, hr₂, e₃⟩ := operand_spec ho₂
    exact ⟨(g₁.trans g₂).trans g₃, .binary op ((hw.mono g₂).mono g₃) (hr₁.mono g₃) hr₂, (e₃.trans e₂).trans e₁⟩
  | ternary op d a b c =>
    simp only [operation, bind_eq_ok, lift_eq_ok, pure_eq_ok] at h
    obtain ⟨⟨u, l₀⟩, ⟨-, hl⟩, ⟨t, l₁⟩, ht, ⟨o₁, l₂⟩, ho₁, ⟨o₂, l₃⟩, ho₂, ⟨o₃, l₄⟩, ho₃, e⟩ := h
    cases hl
    cases e
    obtain ⟨g₁, hw, e₁⟩ := target_spec ht
    obtain ⟨g₂, hr₁, e₂⟩ := operand_spec ho₁
    obtain ⟨g₃, hr₂, e₃⟩ := operand_spec ho₂
    obtain ⟨g₄, hr₃, e₄⟩ := operand_spec ho₃
    refine ⟨((g₁.trans g₂).trans g₃).trans g₄, .ternary op (((hw.mono g₂).mono g₃).mono g₄) ((hr₁.mono g₃).mono g₄)
      (hr₂.mono g₄) hr₃, ?_⟩
    exact ((e₄.trans e₃).trans e₂).trans e₁

end Lower
end PixelShader.Kernel
