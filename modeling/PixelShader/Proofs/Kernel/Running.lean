import Mathlib
import PixelShader.Proofs.Kernel.Compile
import PixelShader.Proofs.Rendering
/-!
# What a kernel computes

Seen through its layout, a frame is a valuation, and a step does to it what its operation does
(`Layout.Lowers.run`).  So the kernel of a program computes the program with all its definitions made first
(`shade_compile`): what slots were given out, in which order and to what, does not show.
-/
namespace PixelShader

namespace Kernel

/-! ## Frames of a layout -/

/-- The frame is as large as the layout asks for, and has the selectors of every mask in their slot. -/
structure Layout.Holds (l : Layout) (f : Frame) : Prop where
  size : f.size = l.entry.size
  mask : ∀ {m n}, l.mask? m = some n → f.get n = m.lanes

namespace Layout
variable {l : Layout} {f : Frame}

theorem Valid.holds_entry (h : l.Valid) : l.Holds l.entry := ⟨rfl, h.mask⟩

theorem Holds.put (hf : l.Holds f) (h : l.Valid) {c : Cell} {n : Nat} (hc : l.cell? c = some n) (v : Quad) :
    l.Holds (f.put n v) ∧ l.view (f.put n v) = Function.update (l.view f) c v := by
  have hn : n < f.size := by
    rw [hf.size]
    exact h.cell_lt hc
  refine ⟨⟨(f.size_put n v).trans hf.size, fun {m k} hm => ?_⟩, view_put h hc hn v⟩
  rw [Frame.get_put f v k hn, if_neg (Ne.symm (h.cell_ne_mask hc hm)), hf.mask hm]

theorem view_eq_get {c : Cell} {n : Nat} (hc : l.cell? c = some n) : l.view f c = f.get n := by simp [view, hc]

theorem Reads.read {s : Source} {o : Operand} (h : l.Reads s o) : o.read f = s.value (l.view f) := by
  obtain ⟨c, hc, hs, hw⟩ := h
  simp only [Operand.read, Source.value, hc, Source.view, view_eq_get hs, hw]

theorem Writes.write {d : Destination} {t : Target} (h : l.Writes d t) (hv : l.Valid) (hf : l.Holds f) (v : Quad) :
    l.Holds (t.write f v) ∧ l.view (t.write f v) = d.assign v (l.view f) := by
  cases h with
  | full hc hn hm =>
    simp only [Target.write, Destination.assign, hc, Quad.write, hm, if_true]
    exact hf.put hv hn v
  | masked hc hn hm hk =>
    simp only [Target.write, Destination.assign, hc, Quad.write, hm, Bool.false_eq_true, if_false, hf.mask hk,
      view_eq_get hn]
    exact hf.put hv hn _

/-! ## Steps -/

def Binds (l : Layout) (find : Slot → Option Sampler) (table : Array Sampler) : Prop :=
  ∀ (n : Nat) (s : Slot), l.samplers[n]? = some s → table[n]? = find s

theorem Lowers.value {find : Slot → Option Sampler} {table : Array Sampler} {op : Operation} {s : Step}
    (h : l.Lowers op (some s)) (ht : l.Binds find table) : s.computation.value table f = op.result find (l.view f) := by
  cases h with
  | texld hw hr hs hn =>
    simp only [Computation.value, Operation.result, Source.sampled, hs, ht _ _ hn, hr.read]
    cases find _ <;> rfl
  | mov hw hr => exact hr.read
  | unary op hw hr => simp only [Computation.value, Operation.result, hr.read]
  | binary op hw ha hb => simp only [Computation.value, Operation.result, ha.read, hb.read]
  | ternary op hw ha hb hc => simp only [Computation.value, Operation.result, ha.read, hb.read, hc.read]

theorem Lowers.writes {op : Operation} {s : Step} (h : l.Lowers op (some s)) :
    ∃ d, op.dest? = some d ∧ l.Writes d s.target := by
  cases h with
  | texld hw | mov hw | unary _ hw | binary _ hw | ternary _ hw => exact ⟨_, rfl, hw⟩

/-- **A step does to the valuation of its frame what its operation does.** -/
theorem Lowers.run {find : Slot → Option Sampler} {table : Array Sampler} {op : Operation} {s : Option Step}
    (h : l.Lowers op s) (hv : l.Valid) (ht : l.Binds find table) (hf : l.Holds f) :
    l.Holds (s.toList.foldl (Step.run table) f) ∧
      l.view (s.toList.foldl (Step.run table) f) = op.compute find (l.view f) := by
  cases s with
  | none => cases h <;> exact ⟨hf, rfl⟩
  | some s =>
    obtain ⟨d, hd, hw⟩ := h.writes
    have hs : s.run table f = s.target.write f (op.result find (l.view f)) := by rw [Step.run, h.value ht]
    simp only [Option.toList_some, List.foldl_cons, List.foldl_nil, hs, Operation.compute, hd, Option.elim_some]
    exact hw.write hv hf _

theorem LowersAll.run {find : Slot → Option Sampler} {table : Array Sampler} {is : List Instruction} {ss : List Step}
    (h : l.LowersAll is ss) (hv : l.Valid) (ht : l.Binds find table) (hf : l.Holds f) :
    l.view (ss.foldl (Step.run table) f) = computeAll find is (l.view f) := by
  induction h generalizing f with
  | nil => rfl
  | cons hi _ ih =>
    obtain ⟨hf', he⟩ := hi.run hv ht hf
    rw [List.foldl_append, ih hf', computeAll_cons, he]

theorem Lowers.cell {op : Operation} {s : Option Step} (h : l.Lowers op s) {c : Cell} (hc : op.Reads c) :
    ∃ n, l.cell? c = some n := by
  obtain ⟨a, ha, negate, hc⟩ := hc
  have hr : ∀ {o}, l.Reads a o → ∃ n, l.cell? c = some n := by
    rintro o ⟨c', hc', hn, -⟩
    rw [hc] at hc'
    cases hc'
    exact ⟨_, hn⟩
  cases h with
  | nop | define | declare => cases ha
  | texld hw h₁ => exact hr (List.mem_singleton.1 ha ▸ h₁)
  | mov hw h₁ => exact hr (List.mem_singleton.1 ha ▸ h₁)
  | unary op hw h₁ => exact hr (List.mem_singleton.1 ha ▸ h₁)
  | binary op hw h₁ h₂ =>
    simp only [Operation.operands, Operation.sources, List.mem_cons, List.not_mem_nil, or_false] at ha
    rcases ha with rfl | rfl
    · exact hr h₁
    · exact hr h₂
  | ternary op hw h₁ h₂ h₃ =>
    simp only [Operation.operands, Operation.sources, List.mem_cons, List.not_mem_nil, or_false] at ha
    rcases ha with rfl | rfl | rfl
    · exact hr h₁
    · exact hr h₂
    · exact hr h₃

theorem LowersAll.cell {is : List Instruction} {ss : List Step} (h : l.LowersAll is ss) {i : Instruction} (hi : i ∈ is)
    {c : Cell} (hc : i.operation.Reads c) : ∃ n, l.cell? c = some n := by
  induction h with
  | nil => cases hi
  | cons h₁ _ ih =>
    rcases List.mem_cons.1 hi with rfl | hi
    · exact h₁.cell hc
    · exact ih hi

/-! ## Bound constants -/

def bindAll (value : Slot → Quad) (ss : List Slot) (σ : Valuation) : Valuation :=
  ss.foldl (fun σ s => Function.update σ ⟨.constant, s⟩ (value s)) σ

theorem bindAll_apply (value : Slot → Quad) (c : Cell) : ∀ (ss : List Slot) (σ : Valuation),
    bindAll value ss σ c = if c.file = .constant ∧ c.slot ∈ ss then value c.slot else σ c
  | [], _ => by simp [bindAll]
  | a :: ss, σ => by
    show bindAll value ss (Function.update σ ⟨.constant, a⟩ (value a)) c = _
    rw [bindAll_apply value c ss]
    by_cases hs : c.file = .constant ∧ c.slot ∈ ss
    · rw [if_pos hs, if_pos ⟨hs.1, List.mem_cons_of_mem a hs.2⟩]
    · rw [if_neg hs]
      by_cases hc : c = ⟨.constant, a⟩
      · subst hc
        simp
      · have hn : ¬ (c.file = .constant ∧ c.slot ∈ a :: ss) := by
          rintro ⟨hf, hm⟩
          rcases List.mem_cons.1 hm with he | hm
          · obtain ⟨file, slot⟩ := c
            cases hf
            cases he
            exact hc rfl
          · exact hs ⟨hf, hm⟩
        rw [Function.update_of_ne hc, if_neg hn]

theorem Holds.bind (h : l.Valid) (value : Slot → Quad) : ∀ (es : List (Nat × Slot)) {f : Frame}, l.Holds f →
    (∀ e ∈ es, l.cell? ⟨.constant, e.2⟩ = some e.1) →
      l.Holds (es.foldl (fun f e => f.put e.1 (value e.2)) f) ∧
        l.view (es.foldl (fun f e => f.put e.1 (value e.2)) f) = bindAll value (es.map Prod.snd) (l.view f)
  | [], _, hf, _ => ⟨hf, rfl⟩
  | e :: es, f, hf, he => by
    obtain ⟨hf', hv⟩ := hf.put h (he e List.mem_cons_self) (value e.2)
    obtain ⟨hf'', hv'⟩ := Holds.bind h value es hf' fun e' he' => he e' (List.mem_cons_of_mem e he')
    rw [List.foldl_cons]
    refine ⟨hf'', ?_⟩
    rw [hv', hv]
    rfl

end Layout

/-! ## The colour of a pixel -/

section
variable {p : Program} {l : Layout} {body : List Step}

/-- The cells whose start matters: constants that are read, and the coordinate if it has a slot. -/
def Layout.relevant (l : Layout) (p : Program) : Set Cell :=
  { c | (c.file = .constant → p.readsConstant c.slot = true) ∧ (c = .coordinate → ∃ n, l.cell? c = some n) }

theorem Layout.Lays.reads_relevant (h : l.Lays p body) {i : Instruction} (hi : i ∈ p.instructions) {c : Cell}
    (hc : i.operation.Reads c) : c ∈ l.relevant p := by
  refine ⟨fun hf => ?_, fun _ => h.steps.cell hi hc⟩
  obtain ⟨s, hs, negate, hsc⟩ := hc
  obtain ⟨file, slot⟩ := c
  cases hf
  have hr := Register.readCell_constant (Source.cell_eq_ok.1 hsc).1
  refine List.any_eq_true.2 ⟨i, hi, List.any_eq_true.2 ⟨s, Operation.mem_sources_of_mem_operands hs, ?_⟩⟩
  simpa using hr

theorem Layout.color_relevant (l : Layout) : Cell.color ∈ l.relevant p := by
  constructor
  · intro hf
    cases hf
  · intro he
    cases he

theorem definesConstant_iff (p : Program) (s : Slot) :
    p.definesConstant s = true ↔ ∃ i ∈ p.instructions, i.operation.defined? = some (UInt32.ofNat s) := by
  unfold Program.definesConstant
  rw [List.any_eq_true]
  constructor
  · rintro ⟨i, hi, h⟩
    refine ⟨i, hi, ?_⟩
    split at h
    · rename_i index v ho
      rw [ho, Operation.defined?]
      simpa using h
    · cases h
  · rintro ⟨i, hi, h⟩
    refine ⟨i, hi, ?_⟩
    cases ho : i.operation with
    | define index v =>
      rw [ho] at h
      cases h
      simp
    | _ =>
      rw [ho] at h
      cases h

/-- Once the constants are bound, the cells that matter hold what they start with, with all definitions made; only the
coordinate is not there yet. -/
theorem Layout.Lays.view_bound (h : l.Lays p body) (constants : ConstantTable) (pixel : Pixel) {c : Cell}
    (hc : c ∈ l.relevant p) (hne : c ≠ .coordinate) :
    Layout.bindAll (fun s => constants.getOrZero (UInt32.ofNat s)) p.externalConstants l.value c =
      defineAll p.instructions (startValues constants pixel.coordinate) c := by
  rw [Layout.bindAll_apply, h.value]
  obtain ⟨file, s⟩ := c
  by_cases hf : file = .constant
  · subst hf
    have hr : p.readsConstant s = true := hc.1 rfl
    by_cases hd : p.definesConstant s = true
    · have hx : s ∉ p.externalConstants := by simp [Program.externalConstants, hd]
      rw [if_neg (fun hm => hx hm.2)]
      exact defineAll_apply_of_defined p.instructions _ _ ((definesConstant_iff p s).1 hd)
    · have hx : s ∈ p.externalConstants := by simp [Program.externalConstants, hd, hr]
      have hn : ∀ i ∈ p.instructions, i.operation.defined? ≠ some (UInt32.ofNat s) := fun i hi he =>
        hd ((definesConstant_iff p s).2 ⟨i, hi, he⟩)
      rw [if_pos ⟨rfl, hx⟩, defineAll_apply_of_not_defined p.instructions _ hn, startValues_constant]
  · rw [if_neg (fun hm => hf hm.1), defineAll_apply_of_file hf, defineAll_apply_of_file hf,
      startValues_of_ne constants _ hf hne]

theorem Layout.Lays.holds_bound (h : l.Lays p body) (constants : ConstantTable) :
    l.Holds ((ofLayout l body).bound constants) ∧ l.view ((ofLayout l body).bound constants) =
      Layout.bindAll (fun s => constants.getOrZero (UInt32.ofNat s)) p.externalConstants l.value := by
  obtain ⟨hb, hv⟩ := Layout.Holds.bind h.valid (fun s => constants.getOrZero (UInt32.ofNat s)) l.externals
    h.valid.holds_entry fun e he => h.valid.external he
  rw [h.externals] at hv
  exact ⟨hb, hv⟩

def Layout.start (l : Layout) (f : Frame) (pixel : Pixel) : Frame :=
  match l.cell? .coordinate with
  | some n => f.put n pixel.coordinate
  | none => f

theorem Layout.Holds.start {f : Frame} (hf : l.Holds f) (h : l.Valid) (pixel : Pixel) :
    l.Holds (l.start f pixel) ∧ (∀ c, c ≠ .coordinate → l.view (l.start f pixel) c = l.view f c) ∧
      ∀ n, l.cell? .coordinate = some n → l.view (l.start f pixel) .coordinate = pixel.coordinate := by
  unfold Layout.start
  cases hn : l.cell? .coordinate with
  | none => exact ⟨hf, fun _ _ => rfl, fun n he => by cases he⟩
  | some n =>
    obtain ⟨hp, hv⟩ := hf.put h hn pixel.coordinate
    simp only
    rw [hv]
    exact ⟨hp, fun c hc => Function.update_of_ne hc _ _, fun _ _ => Function.update_self _ _ _⟩

theorem shade_ofLayout (table : Array Sampler) (f : Frame) (pixel : Pixel) :
    ((ofLayout l body).shade table f pixel).1 = l.view (body.foldl (Step.run table) (l.start f pixel)) .color := by
  simp only [Kernel.shade, ofLayout, Layout.view, Layout.start]
  cases l.cell? .color <;> rfl

/-- **The kernel of a program computes the program with its definitions made first.** -/
theorem shade_compile {k : Kernel} (hk : compile p = .ok k) {find : Slot → Option Sampler} {table : Array Sampler}
    (ht : ∀ (n : Nat) (s : Slot), k.samplers[n]? = some s → table[n]? = find s) (constants : ConstantTable)
    (pixel : Pixel) :
    (k.shade table (k.bound constants) pixel).1 =
      computeAll find p.instructions (defineAll p.instructions (startValues constants pixel.coordinate)) .color := by
  obtain ⟨l, body, rfl, h⟩ := compile_spec hk
  obtain ⟨hb, hvb⟩ := h.holds_bound constants
  obtain ⟨hs, hother, hcoord⟩ := Layout.Holds.start hb h.valid pixel
  have heq : Set.EqOn (l.view (l.start ((ofLayout l body).bound constants) pixel))
      (defineAll p.instructions (startValues constants pixel.coordinate)) (l.relevant p) := by
    intro c hc
    by_cases hne : c = .coordinate
    · subst hne
      obtain ⟨n, hn⟩ := hc.2 rfl
      rw [defineAll_apply_of_file (by decide)]
      exact hcoord n hn
    · refine (hother c hne).trans ?_
      rw [hvb]
      exact h.view_bound constants pixel hc hne
  rw [shade_ofLayout, h.steps.run h.valid ht hs]
  exact computeAll_eqOn find p.instructions _ _ (fun i hi c hc => h.reads_relevant hi hc) heq l.color_relevant

end

/-! ## One frame for all pixels -/

theorem Frame.copyFrom_of_size_eq {f entry : Frame} (h : f.size = entry.size) : f.copyFrom entry = entry := by
  apply Array.ext
  · rw [copyFrom, Array.size_mapIdx, h]
  · intro n hn hn'
    simp [copyFrom, Frame.get, Array.getD_eq_getD_getElem?, hn']

theorem Target.size_write (t : Target) (f : Frame) (v : Quad) : (t.write f v).size = f.size := by
  cases t <;> exact Frame.size_put f _ _

theorem size_foldl_run (table : Array Sampler) : ∀ (ss : List Step) (f : Frame),
    (ss.foldl (Step.run table) f).size = f.size
  | [], _ => rfl
  | s :: ss, f => by rw [List.foldl_cons, size_foldl_run table ss, Step.run, Target.size_write]

theorem size_shade (k : Kernel) (table : Array Sampler) (f : Frame) (pixel : Pixel) :
    (k.shade table f pixel).2.size = f.size := by
  have hframe : (k.shade table f pixel).2 = k.body.foldl (Step.run table)
      (k.coordinate.elim f fun slot => f.put slot pixel.coordinate) := by
    unfold shade
    cases k.coordinate <;> cases k.color <;> rfl
  rw [hframe, size_foldl_run]
  cases k.coordinate with
  | none => rfl
  | some slot => exact Frame.size_put f slot _

/-- **A pixel has the colour that the kernel gives from a fresh frame**, whatever is left in the frame.  The frame keeps
its size. -/
theorem turn_spec (k : Kernel) (table : Array Sampler) {entry left : Frame} (h : left.size = entry.size)
    (pixel : Pixel) : ∃ f', (k.turn table entry pixel).run left = .ok (k.shade table entry pixel).1 f' ∧
      f'.size = entry.size := by
  have hturn : (k.turn table entry pixel).run left =
      .ok (k.shade table (left.copyFrom entry) pixel).1 (k.shade table (left.copyFrom entry) pixel).2 := rfl
  rw [hturn, Frame.copyFrom_of_size_eq h]
  exact ⟨_, rfl, size_shade k table entry pixel⟩

/-- **A kernel paints every pixel with the colour that its program computes once all definitions are made, or is refused
for what is not bound.** -/
theorem run_spec {p : Program} {k : Kernel} (hk : compile p = .ok k) (b : Bindings) :
    match b.supply p with
    | .error fault => k.run b = .refused b (.binding fault)
    | .ok image => k.run b = b.painted image fun pixel =>
        computeAll b.samplers.get p.instructions
          (defineAll p.instructions (startValues b.constants pixel.coordinate)) .color := by
  have hm := b.mapM_samplerAt_spec k.samplers
  have hs : k.samplers = (samplerSlots p.instructions).foldl noteNew [] ∧
      ∀ i ∈ p.instructions, i.operation.Supported := by
    obtain ⟨l, body, rfl, h⟩ := compile_spec hk
    exact ⟨h.samplers, h.supported⟩
  rw [b.supply_of_supported hs.2, ← hs.1]
  unfold run
  cases ho : b.output with
  | none => rfl
  | some image =>
    simp only
    cases hf : k.samplers.find? b.lacks with
    | some s =>
      rw [hf] at hm
      simp only [hm]
    | none =>
      rw [hf] at hm
      obtain ⟨xs, hxs, hget⟩ := hm
      simp only [hxs]
      have ht : ∀ (n : Nat) (s : Slot), k.samplers[n]? = some s → xs.toArray[n]? = b.samplers.get s := fun n s hn => by
        rw [List.getElem?_toArray, hget n, hn, Option.bind_some]
      refine b.draw_eq_painted image (fun f => f.size = (k.bound b.constants).size) (fun pixel left hleft => ?_) rfl
      rw [← shade_compile hk ht]
      exact k.turn_spec xs.toArray hleft pixel

end Kernel
end PixelShader
