import Mathlib
import PixelShader.Proofs.Kernel.Bounds
/-!
# What an instruction leaves alone

An instruction changes the lanes of one register that its write mask selects, and a definition changes one constant
(`Operation.Changes`).  A partial write goes through a blend, which takes each lane whole from one of two quads
(`Quad.get_blend_lanes`), so that a lane which is kept keeps its bits.  The interpreter's step is followed down to the
one cell it stores in (`Registers.get_commit_lane`); a kernel's step writes one slot through selectors that it finds in
another, and does the same as long as those are what the layout put there (`Kernel.Layout.Writes.get_write`).
-/
namespace PixelShader

/-! ## Lanes of a masked write -/

theorem Quad.get_blend (mask on off : Quad) (k : Component) : (blend mask on off).get k =
    ⟨(mask.get k).bits &&& (on.get k).bits ||| ~~~(mask.get k).bits &&& (off.get k).bits⟩ := by
  cases k <;> rfl

theorem WriteMask.get_lanes (m : WriteMask) (k : Component) : m.lanes.get k = Quad.selector (m.has k) := by
  cases k <;> rfl

/-- **A blend by the lanes of a mask takes each lane whole**, from one quad or the other. -/
theorem Quad.get_blend_lanes (m : WriteMask) (on off : Quad) (k : Component) :
    (blend m.lanes on off).get k = if m.has k then on.get k else off.get k := by
  have hones : (0xffffffff : UInt32) = -1 := by decide
  rw [get_blend, m.get_lanes, selector]
  cases m.has k <;> simp [hones]

theorem WriteMask.has_of_isFull {m : WriteMask} (h : m.isFull = true) (k : Component) : m.has k = true := by
  rw [eq_of_beq h]
  cases k <;> rfl

theorem Quad.get_write (q value : Quad) (m : WriteMask) (k : Component) :
    (q.write value m).get k = if m.has k then value.get k else q.get k := by
  unfold write
  split
  · rename_i hm
    rw [if_pos (WriteMask.has_of_isFull hm k)]
  · exact get_blend_lanes m value q k

/-! ## What an operation changes -/

/-- The register that an operation writes and the lanes it writes of it; of a constant that is defined, all. -/
def Operation.written? : Operation → Option (Register × WriteMask)
  | .define index _ => some (⟨.constant, index⟩, .full)
  | op => op.dest?.map fun d => (d.register, d.mask)

def Operation.Changes (op : Operation) (r : Register) (k : Component) : Prop :=
  ∃ m, op.written? = some (r, m) ∧ m.has k = true

def Operation.product (find : Slot → Option Sampler) (σ : Valuation) : Operation → Quad
  | .define _ value => value
  | op => op.result find σ

theorem Operation.changes_register_iff {op : Operation} {c : Cell} {m : WriteMask}
    (h : op.written? = some (c.register, m)) {c' : Cell} {k : Component} :
    op.Changes c'.register k ↔ c' = c ∧ m.has k = true := by
  unfold Changes
  rw [h]
  simp only [Option.some.injEq, Prod.mk.injEq]
  constructor
  · rintro ⟨_, ⟨hr, rfl⟩, hk⟩
    exact ⟨Cell.register_injective hr.symm, hk⟩
  · rintro ⟨rfl, hk⟩
    exact ⟨m, ⟨rfl, rfl⟩, hk⟩

theorem Operation.written_of_dest {op : Operation} (h : op.defined? = none) :
    op.written? = op.dest?.map fun d => (d.register, d.mask) := by
  cases op with
  | define => cases h
  | _ => rfl

theorem Operation.product_of_dest {op : Operation} (h : op.defined? = none) (find : Slot → Option Sampler)
    (σ : Valuation) : op.product find σ = op.result find σ := by
  cases op with
  | define => cases h
  | _ => rfl

/-! ## Steps of the interpreter -/

/-- **A step stores nothing, or what it computes in the cell of the register it writes.** -/
theorem Operation.evaluate_store {op : Operation} {t : SamplerTable} {r : Registers} {w : Option Store}
    (h : op.evaluate t r = .ok w) : (op.written? = none ∧ w = none) ∨
      ∃ s, w = some s ∧ op.written? = some (s.cell.register, s.mask) ∧ s.value = op.product t.get r.get ∧
        s.cell.file ≠ .coordinate := by
  rcases evaluate_cases h with ⟨hd, hn, rfl⟩ | ⟨index, value, s, rfl, hs, rfl⟩ | ⟨d, c, hd, hn, hc, rfl⟩
  · exact .inl ⟨by rw [written_of_dest hn, hd]; rfl, rfl⟩
  · refine .inr ⟨_, rfl, ?_, rfl, RegisterFile.noConfusion⟩
    rw [Cell.register, ← Register.slot_eq_ok.1 hs]
    rfl
  · refine .inr ⟨_, rfl, ?_, (product_of_dest hn _ _).symm, ?_⟩
    · rw [written_of_dest hn, hd, Register.register_of_readCell (Destination.readCell_of_cell hc)]
      rfl
    · intro hf
      rcases Destination.cell_file hc with ht | rfl
      · cases ht.symm.trans hf
      · cases hf

theorem Registers.get_commit_lane (r : Registers) (s : Store) (c : Cell) (k : Component) :
    ((r.commit s).get c).get k = if c = s.cell ∧ s.mask.has k = true then s.value.get k else (r.get c).get k := by
  rw [get_commit]
  by_cases hc : c = s.cell
  · subst hc
    rw [Function.update_self, Quad.get_write]
    simp only [true_and]
  · rw [Function.update_of_ne hc, if_neg fun h => hc h.1]

theorem Registers.coordinates_commit {r : Registers} {s : Store} (h : s.cell.file ≠ .coordinate) :
    (r.commit s).coordinates = r.coordinates := by
  unfold commit set
  cases hf : s.cell.file with
  | coordinate => exact absurd hf h
  | _ => rfl

section
variable {t : SamplerTable} {i : Instruction} {r r' : Registers}

theorem Instruction.run_step_error {refusal : Refusal} (h : (i.step t).run r = .error refusal r') : r' = r := by
  cases he : i.operation.evaluate t r with
  | ok w =>
    rw [run_step he] at h
    cases h
  | error e =>
    simp only [step, EStateM.run, bind, EStateM.bind, get, getThe, MonadStateOf.get, EStateM.get, he] at h
    cases h
    rfl

theorem Instruction.run_step_ok (h : (i.step t).run r = .ok () r') :
    ∃ w, i.operation.evaluate t r = .ok w ∧ r' = r.after w := by
  cases he : i.operation.evaluate t r with
  | ok w =>
    rw [run_step he] at h
    cases h
    exact ⟨w, rfl, rfl⟩
  | error e =>
    simp only [step, EStateM.run, bind, EStateM.bind, get, getThe, MonadStateOf.get, EStateM.get, he] at h
    cases h

theorem Instruction.lane_of_run_step (h : (i.step t).run r = .ok () r') (c : Cell) (k : Component) :
    (i.operation.Changes c.register k → (r'.get c).get k = (i.operation.product t.get r.get).get k) ∧
      (¬ i.operation.Changes c.register k → (r'.get c).get k = (r.get c).get k) := by
  obtain ⟨w, he, rfl⟩ := run_step_ok h
  rcases Operation.evaluate_store he with ⟨hn, rfl⟩ | ⟨s, rfl, hw, hv, -⟩
  · refine ⟨fun hc => ?_, fun _ => rfl⟩
    obtain ⟨m, hm, -⟩ := hc
    rw [hn] at hm
    cases hm
  · rw [Registers.after, Option.elim_some, Registers.get_commit_lane, ← hv, Operation.changes_register_iff hw]
    exact ⟨fun hc => if_pos hc, fun hc => if_neg hc⟩

theorem Instruction.coordinates_of_run_step (h : (i.step t).run r = .ok () r') : r'.coordinates = r.coordinates := by
  obtain ⟨w, he, rfl⟩ := run_step_ok h
  rcases Operation.evaluate_store he with ⟨-, rfl⟩ | ⟨s, rfl, -, -, hf⟩
  · rfl
  · exact Registers.coordinates_commit hf

end

/-! ## Steps of a kernel -/

namespace Kernel

theorem Frame.put_of_le {f : Frame} {n : Nat} (h : f.size ≤ n) (v : Quad) : f.put n v = f :=
  Array.setIfInBounds_eq_of_size_le h

theorem Frame.get_put_lane (f : Frame) (n : Nat) (v : Quad) (j : Nat) (k : Component) :
    ((f.put n v).get j).get k = if j = n ∧ n < f.size then v.get k else (f.get j).get k := by
  by_cases hn : n < f.size
  · rw [Frame.get_put f v j hn]
    by_cases hj : j = n
    · rw [if_pos hj, if_pos ⟨hj, hn⟩]
    · rw [if_neg hj, if_neg fun h => hj h.1]
  · rw [Frame.put_of_le (Nat.le_of_not_lt hn), if_neg fun h => hn h.2]

namespace Layout

/-- The layouts that can be made, by giving out slots one after another. -/
inductive Built : Layout → Prop
  | empty : Built {}
  | cell {l : Layout} (c : Cell) : Built l → Built (l.cell c).2
  | mask {l : Layout} (m : WriteMask) : Built l → Built (l.mask m).2
  | sampler {l : Layout} (s : Slot) : Built l → Built (l.sampler s).2
  | define {l : Layout} (s : Slot) (value : Quad) : Built l → Built (l.define s value)
  | takeExternal {l : Layout} (s : Slot) : Built l → Built (l.takeExternal s)

theorem Built.valid {l : Layout} (h : l.Built) : l.Valid := by
  induction h with
  | empty => exact valid_empty
  | cell c _ ih => exact (cell_grows c _).1.valid ih
  | mask m _ ih => exact (mask_grows m _).1.valid ih
  | sampler s _ ih => exact (sampler_grows s _).1.valid ih
  | define s value _ ih => exact (define_spec ih s value).1
  | takeExternal s _ ih => exact (takeExternal_spec ih s).1

theorem built_declareAll : ∀ (is : List Instruction) (ds : Declarations) (l l' : Layout) (index : Nat),
    l.Built → declareAll ds l index is = .ok l' → l'.Built
  | [], _, _, _, _, hb, h => by
    cases h
    exact hb
  | i :: is, ds, l, l', index, hb, h => by
    rw [declareAll_cons] at h
    split at h
    · cases h
    · rename_i declared ds' _
      refine built_declareAll is ds' _ l' (index + 1) ?_ h
      cases declared with
      | constant s value => exact hb.define s value
      | coordinate => exact hb.cell .coordinate
      | sampler | nothing => exact hb

theorem built_header {p : Program} {l : Layout} (h : header p = .ok l) : l.Built := by
  simp only [header, except_bind_eq_ok, pure, Except.pure, Except.ok.injEq] at h
  obtain ⟨l₀, h₀, rfl⟩ := h
  have hdeclared := built_declareAll _ _ _ _ _ .empty h₀
  have hexternal : (p.externalConstants.foldl takeExternal l₀).Built :=
    List.foldlRecOn _ _ hdeclared fun _ hb s _ => hb.takeExternal s
  exact List.foldlRecOn _ _ hexternal fun _ hb m _ => hb.mask m

/-- **A target writes the lanes that its destination selects of its own slot**, if the selectors are those of the mask. -/
theorem Writes.get_write {l : Layout} {d : Destination} {t : Target} (h : l.Writes d t) {f : Frame}
    (hf : ∀ m n, l.mask? m = some n → f.get n = m.lanes) (v : Quad) (j : Nat) (k : Component) :
    ((t.write f v).get j).get k =
      if (j = t.slot ∧ j < f.size) ∧ d.mask.has k = true then v.get k else (f.get j).get k := by
  cases h with
  | full hc hn hm =>
    have hk := WriteMask.has_of_isFull hm k
    simp only [Target.write, Target.slot, Frame.get_put_lane, hk, and_true]
    exact if_congr (and_congr_right fun hj => by rw [hj]) rfl rfl
  | @masked c n m hc hn hm hk =>
    rw [Target.write, Target.slot, Frame.get_put_lane, hf _ _ hk, Quad.get_blend_lanes]
    by_cases hj : j = n ∧ j < f.size
    · obtain ⟨rfl, hlt⟩ := hj
      simp only [hlt, true_and, and_self, if_true]
    · rw [if_neg fun h => hj ⟨h.1, by rw [h.1]; exact h.2⟩, if_neg fun h => hj h.1]

end Layout

namespace Lower

def Keeps {α : Type} (a : Lower α) : Prop := ∀ l r, l.Built → a l = .ok r → r.2.Built

theorem keeps_pure {α : Type} (x : α) : Keeps (pure x : Lower α) := fun l r hb h => by
  rw [pure_eq_ok.1 h]
  exact hb

theorem keeps_lift {α : Type} (x : Except Objection α) : Keeps (liftM x : Lower α) := fun l r hb h => by
  rw [(lift_eq_ok.1 h).2]
  exact hb

theorem keeps_bind {α β : Type} {a : Lower α} {f : α → Lower β} (ha : Keeps a) (hf : ∀ x, Keeps (f x)) :
    Keeps (a >>= f) := fun l r hb h => by
  obtain ⟨y, hy, hr⟩ := bind_eq_ok.1 h
  exact hf y.1 y.2 r (ha l y hb hy) hr

theorem keeps_operand (s : Source) : Keeps (operand s) := fun l r hb h => by
  obtain ⟨c, negate, -, rfl⟩ := operand_eq_ok.1 h
  exact hb.cell c

theorem keeps_target (d : Destination) : Keeps (target d) := fun l r hb h => by
  obtain ⟨c, -, rfl⟩ := target_eq_ok.1 h
  split
  · exact hb.cell c
  · exact (hb.cell c).mask d.mask

theorem keeps_sampler (s : Slot) : Keeps (slot (Layout.sampler s)) := fun l r hb h => by
  rw [slot_eq_ok.1 h]
  exact hb.sampler s

theorem keeps_operation (op : Operation) : Keeps (operation op) := by
  cases op with
  | nop | define | declare => exact keeps_pure none
  | texld d coord sampler =>
    exact keeps_bind (keeps_target d) fun _ => keeps_bind (keeps_operand coord) fun _ =>
      keeps_bind (keeps_lift _) fun s => keeps_bind (keeps_sampler s) fun _ => keeps_pure _
  | mov d a => exact keeps_bind (keeps_target d) fun _ => keeps_bind (keeps_operand a) fun _ => keeps_pure _
  | unary op d a => exact keeps_bind (keeps_target d) fun _ => keeps_bind (keeps_operand a) fun _ => keeps_pure _
  | binary op d a b =>
    exact keeps_bind (keeps_target d) fun _ => keeps_bind (keeps_operand a) fun _ =>
      keeps_bind (keeps_operand b) fun _ => keeps_pure _
  | ternary op d a b c =>
    exact keeps_bind (keeps_lift _) fun _ => keeps_bind (keeps_target d) fun _ => keeps_bind (keeps_operand a) fun _ =>
      keeps_bind (keeps_operand b) fun _ => keeps_bind (keeps_operand c) fun _ => keeps_pure _

end Lower
end Kernel

/-- **An instruction changes nothing but the lanes it writes.**  A step of the interpreter that is refused leaves all
registers as they were; one that is not puts what it computes into the lanes of the one register it writes, and all
other lanes of all registers keep their bits, the coordinates among them.  The step that an operation is lowered to, in
any layout that compiling comes to, does the same to the slot of its register in every frame that has the selectors of
masks where the layout has them. -/
theorem step_changes_written_lanes :
    (∀ (t : SamplerTable) (i : Instruction) (r : Registers),
      (∀ refusal r', (i.step t).run r = .error refusal r' → r' = r) ∧
      ∀ r', (i.step t).run r = .ok () r' → r'.coordinates = r.coordinates ∧ ∀ (c : Cell) (k : Component),
        (i.operation.Changes c.register k → (r'.get c).get k = (i.operation.product t.get r.get).get k) ∧
        (¬ i.operation.Changes c.register k → (r'.get c).get k = (r.get c).get k)) ∧
    (∀ p l, Kernel.header p = .ok l → l.Built) ∧
    ∀ (l l' : Kernel.Layout) (op : Operation) (step : Option Kernel.Step), l.Built →
      Kernel.Lower.operation op l = .ok (step, l') → l'.Built ∧ ∀ s ∈ step,
        ∃ d, op.dest? = some d ∧ l'.register? d.register = some s.target.slot ∧
          ∀ (table : Array Sampler) (f : Kernel.Frame),
            (∀ m n, l'.mask? m = some n → f.get n = Kernel.Frame.get l'.entry n) →
              (s.run table f).size = f.size ∧ ∀ (n : Nat) (k : Component), ((s.run table f).get n).get k =
                if (n = s.target.slot ∧ n < f.size) ∧ d.mask.has k = true then (s.computation.value table f).get k
                else (f.get n).get k := by
  refine ⟨fun t i r => ⟨fun refusal r' => Instruction.run_step_error, fun r' h => ?_⟩,
    fun p l => Kernel.Layout.built_header, fun l l' op step hb hs => ⟨Kernel.Lower.keeps_operation op l _ hb hs, ?_⟩⟩
  · exact ⟨Instruction.coordinates_of_run_step h, Instruction.lane_of_run_step h⟩
  · rintro s rfl
    obtain ⟨hg, hl, -⟩ := Kernel.Lower.operation_spec hs
    have hv := hg.valid hb.valid
    obtain ⟨d, hd, hw⟩ := hl.writes
    obtain ⟨c, hc, hn⟩ := hw.cell
    refine ⟨d, hd, ?_, fun table f hf => ⟨?_, fun n k => ?_⟩⟩
    · exact Kernel.Layout.register?_eq_some.2 ⟨c, Destination.readCell_of_cell hc, hn⟩
    · exact Kernel.Target.size_write _ _ _
    · exact hw.get_write (fun m n hm => (hf m n hm).trans (hv.mask hm)) _ n k

def marked : Quad := ⟨⟨0x7fc00001⟩, .two, ⟨0x80000000⟩, .one⟩

def halfProduct : Operation :=
  .binary .mul { register := ⟨.temp, 1⟩, mask := ⟨0x0a⟩ }
    { register := ⟨.temp, 1⟩, swizzle := ⟨.w, .z, .y, .x⟩, modifier := .negate } { register := ⟨.constant, 2⟩ }

/-- Where every register is `marked`, the NaN and the zero stay in all of them, and in a frame they stay in the slot that
is written. -/
theorem halfProduct_keeps_marks :
    (∃ r', (Instruction.step (.replicate registerSlots none) { operation := halfProduct }).run
        ⟨.replicate registerSlots marked, .replicate registerSlots marked, .replicate registerSlots marked,
          .replicate registerSlots marked⟩ = .ok () r' ∧
      ∀ c, (r'.get c).x = ⟨0x7fc00001⟩ ∧ (r'.get c).z = ⟨0x80000000⟩) ∧
    ∃ s l', Kernel.Lower.operation halfProduct {} = .ok (some s, l') ∧ s.target = .masked 0 1 ∧
      ((s.run #[] (Kernel.Frame.put l'.entry 0 marked)).get 0).x = ⟨0x7fc00001⟩ ∧
      ((s.run #[] (Kernel.Frame.put l'.entry 0 marked)).get 0).z = ⟨0x80000000⟩ := by
  constructor
  · have hmarked : ∀ c, Registers.get ⟨.replicate registerSlots marked, .replicate registerSlots marked,
        .replicate registerSlots marked, .replicate registerSlots marked⟩ c = marked := by
      rintro ⟨file, slot⟩
      cases file <;> simp [Registers.get]
    have hkept : ∀ r k, halfProduct.Changes r k → k = .y ∨ k = .w := by
      rintro r k ⟨m, hm, hk⟩
      cases hm
      cases k
      · cases hk
      · exact .inl rfl
      · cases hk
      · exact .inr rfl
    obtain ⟨r', hr⟩ : ∃ r', (Instruction.step (.replicate registerSlots none) { operation := halfProduct }).run
        ⟨.replicate registerSlots marked, .replicate registerSlots marked, .replicate registerSlots marked,
          .replicate registerSlots marked⟩ = .ok () r' := ⟨_, rfl⟩
    refine ⟨r', hr, fun c => ?_⟩
    have hlane := ((step_changes_written_lanes.1 _ _ _).2 r' hr).2 c
    have hx := (hlane .x).2 fun h => by rcases hkept _ _ h with h | h <;> cases h
    have hz := (hlane .z).2 fun h => by rcases hkept _ _ h with h | h <;> cases h
    rw [hmarked] at hx hz
    exact ⟨hx, hz⟩
  · obtain ⟨s, l', hs, ht, hmasks, hentry⟩ : ∃ s l', Kernel.Lower.operation halfProduct {} = .ok (some s, l') ∧
        s.target = .masked 0 1 ∧ l'.masks = [(⟨0x0a⟩, 1)] ∧
        l'.entry = #[.zero, WriteMask.lanes ⟨0x0a⟩, .zero] := ⟨_, _, rfl, rfl, rfl, rfl⟩
    have hf : ∀ m n, l'.mask? m = some n → (Kernel.Frame.put l'.entry 0 marked).get n = Kernel.Frame.get l'.entry n := by
      intro m n hm
      rw [Kernel.Layout.mask?, hmasks, List.lookup_cons] at hm
      split at hm
      · cases hm
        rw [hentry]
        rfl
      · cases hm
    have hslot : (Kernel.Frame.put l'.entry 0 marked).get 0 = marked := by
      rw [hentry]
      rfl
    obtain ⟨d, hd, -, hrun⟩ := (step_changes_written_lanes.2.2 _ _ _ _ .empty hs).2 s rfl
    cases hd
    have hlane := (hrun #[] _ hf).2 0
    rw [hslot] at hlane
    exact ⟨s, l', hs, ht, (hlane .x).trans (if_neg fun h => by cases h.2),
      (hlane .z).trans (if_neg fun h => by cases h.2)⟩

end PixelShader
