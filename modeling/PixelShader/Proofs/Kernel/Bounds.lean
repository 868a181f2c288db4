import Mathlib
import PixelShader.Proofs.Agreement
import PixelShader.Proofs.Kernel.Occupancy
/-!
# No kernel leaves its frame

Outside of a frame a slot reads as zero and a write is lost, so a wrong slot would go unnoticed.  Here a kernel is run
with every index checked (`run?`), and has no result if one is out of range.  A kernel that names no index beyond its
sizes (`Fits`) has its result all the same (`run?_of_fits`): a step keeps the size of its frame, so what fits at the
start fits at every pixel.  Compiled kernels fit (`Layout.Lays.fits`), and what is to keep its value while they run has
a slot that no step writes (`Layout.Lowers.target_slot`).
-/
namespace PixelShader.Kernel

/-! ## Checked execution -/

def Frame.put? (f : Frame) (slot : Nat) (value : Quad) : Option Frame :=
  if slot < f.size then some (f.put slot value) else none

def Operand.read? (o : Operand) (f : Frame) : Option Quad := do
  let value ← f[o.slot]?
  return if o.negate then -(value.swizzle o.swizzle) else value.swizzle o.swizzle

def Target.write? (t : Target) (f : Frame) (value : Quad) : Option Frame :=
  match t with
  | full slot => f.put? slot value
  | masked slot mask => do
    let selectors ← f[mask]?
    let previous ← f[slot]?
    f.put? slot (Quad.blend selectors value previous)

def Computation.value? (samplers : Array Sampler) (f : Frame) : Computation → Option Quad
  | sample position coordinate => do
    let s ← samplers[position]?
    return s.sample (← coordinate.read? f)
  | mov a => a.read? f
  | unary op a => return op.apply (← a.read? f)
  | binary op a b => return op.apply (← a.read? f) (← b.read? f)
  | ternary op a b c => return op.apply (← a.read? f) (← b.read? f) (← c.read? f)

def Step.run? (samplers : Array Sampler) (f : Frame) (s : Step) : Option Frame := do
  s.target.write? f (← s.computation.value? samplers f)

def bound? (k : Kernel) (constants : ConstantTable) : Option Frame :=
  k.externals.foldlM (fun f e => f.put? e.1 (constants.getOrZero (UInt32.ofNat e.2))) k.entry

/-- A copy is made only between frames of one size. -/
def Frame.copyFrom? (f entry : Frame) : Option Frame := if f.size = entry.size then some (f.copyFrom entry) else none

def shade? (k : Kernel) (samplers : Array Sampler) (frame : Frame) (pixel : Pixel) : Option (Quad × Frame) := do
  let started ← k.coordinate.elim (some frame) fun slot => frame.put? slot pixel.coordinate
  let ended ← k.body.foldlM (Step.run? samplers) started
  let color ← k.color.elim (some .zero) fun slot => ended[slot]?
  return (color, ended)

def paints? (k : Kernel) (samplers : Array Sampler) (entry frame : Frame) : List Pixel → Option (List Paint)
  | [] => some []
  | pixel :: rest => do
    let (color, left) ← k.shade? samplers (← frame.copyFrom? entry) pixel
    return ⟨pixel.x, pixel.y, color⟩ :: (← k.paints? samplers entry left rest)

/-- A run of which every index is checked, at every pixel. -/
def run? (k : Kernel) (b : Bindings) : Option Rendering :=
  match b.output with
  | none => some (.refused b (.binding (.unboundOutput 0)))
  | some image =>
    match k.samplers.mapM b.samplerAt with
    | .error fault => some (.refused b (.binding fault))
    | .ok samplers => do
      let entry ← k.bound? b.constants
      let paints ← k.paints? samplers.toArray entry entry (Walk.pixels image.width image.height)
      return ⟨{ b with output := some (paints.foldl Image.paint image) }, paints.toArray, .ok ()⟩

/-! ## Indices within the sizes -/

def Target.slot : Target → Nat
  | full slot => slot
  | masked slot _ => slot

def Target.slots : Target → List Nat
  | full slot => [slot]
  | masked slot mask => [slot, mask]

def Computation.operands : Computation → List Operand
  | sample _ a => [a]
  | mov a => [a]
  | unary _ a => [a]
  | binary _ a b => [a, b]
  | ternary _ a b c => [a, b, c]

def Computation.position? : Computation → Option Nat
  | sample position _ => some position
  | _ => none

def Step.slots (s : Step) : List Nat := s.target.slots ++ s.computation.operands.map (·.slot)

structure Step.Fits (s : Step) (size samplers : Nat) : Prop where
  slots : ∀ n ∈ s.slots, n < size
  position : ∀ n ∈ s.computation.position?, n < samplers

/-- Every slot that a kernel names is in its frame, and every sampler is in its list. -/
structure Fits (k : Kernel) : Prop where
  steps : ∀ s ∈ k.body, s.Fits k.frameSize k.samplers.length
  externals : ∀ e ∈ k.externals, e.1 < k.frameSize
  coordinate : ∀ n ∈ k.coordinate, n < k.frameSize
  color : ∀ n ∈ k.color, n < k.frameSize

section
variable {f : Frame} {table : Array Sampler}

theorem Frame.getElem?_of_lt {n : Nat} (h : n < f.size) : f[n]? = some (f.get n) := by
  simp [Frame.get, Array.getD_eq_getD_getElem?, h]

theorem Frame.put?_of_lt {n : Nat} (h : n < f.size) (v : Quad) : f.put? n v = some (f.put n v) := if_pos h

theorem Operand.read?_of_lt {o : Operand} (h : o.slot < f.size) : o.read? f = some (o.read f) := by
  simp only [read?, Frame.getElem?_of_lt h]
  rfl

theorem Target.write?_of_lt {t : Target} (h : ∀ n ∈ t.slots, n < f.size) (v : Quad) :
    t.write? f v = some (t.write f v) := by
  cases t with
  | full slot => exact Frame.put?_of_lt (h slot (by simp [slots])) v
  | masked slot mask =>
    have hs : slot < f.size := h slot (by simp [slots])
    have hm : mask < f.size := h mask (by simp [slots])
    simp only [write?, Frame.getElem?_of_lt hm, Frame.getElem?_of_lt hs]
    exact Frame.put?_of_lt hs _

theorem Computation.value?_of_lt {c : Computation} (h : ∀ a ∈ c.operands, a.slot < f.size)
    (hp : ∀ n ∈ c.position?, n < table.size) : c.value? table f = some (c.value table f) := by
  have hread : ∀ a ∈ c.operands, a.read? f = some (a.read f) := fun a ha => Operand.read?_of_lt (h a ha)
  cases c with
  | sample position a =>
    have hs : position < table.size := hp position rfl
    simp [value?, value, hread a (by simp [operands]), hs]
  | mov a => exact hread a (by simp [operands])
  | unary op a => simp [value?, value, hread a (by simp [operands])]
  | binary op a b => simp [value?, value, hread a (by simp [operands]), hread b (by simp [operands])]
  | ternary op a b c =>
    simp [value?, value, hread a (by simp [operands]), hread b (by simp [operands]), hread c (by simp [operands])]

/-! ## What one step keeps, and a run -/

theorem Step.run?_of_fits {s : Step} (h : s.Fits f.size table.size) : s.run? table f = some (s.run table f) := by
  have ht : ∀ n ∈ s.target.slots, n < f.size := fun n hn => h.slots n (List.mem_append_left _ hn)
  have ho : ∀ a ∈ s.computation.operands, a.slot < f.size := fun a ha =>
    h.slots _ (List.mem_append_right _ (List.mem_map_of_mem ha))
  simp only [Step.run?, Computation.value?_of_lt ho h.position]
  exact Target.write?_of_lt ht _

theorem foldlM_of_keeps {α : Type} {g? : Frame → α → Option Frame} {g : Frame → α → Frame} {size : Nat} :
    ∀ (as : List α), (∀ a ∈ as, ∀ f : Frame, f.size = size → g? f a = some (g f a) ∧ (g f a).size = size) →
      ∀ f : Frame, f.size = size → as.foldlM g? f = some (as.foldl g f) ∧ (as.foldl g f).size = size
  | [], _, _, hf => ⟨rfl, hf⟩
  | a :: as, h, f, hf => by
    obtain ⟨hrun, hsize⟩ := h a List.mem_cons_self f hf
    rw [List.foldlM_cons, hrun, List.foldl_cons]
    exact foldlM_of_keeps as (fun a' ha' => h a' (List.mem_cons_of_mem a ha')) (g f a) hsize

theorem bound?_of_fits {k : Kernel} (h : k.Fits) (constants : ConstantTable) :
    k.bound? constants = some (k.bound constants) ∧ (k.bound constants).size = k.frameSize := by
  refine foldlM_of_keeps k.externals (fun e he f hf => ⟨Frame.put?_of_lt ?_ _, ?_⟩) k.entry rfl
  · rw [hf]
    exact h.externals e he
  · rw [Frame.size_put, hf]

theorem foldlM_run?_of_fits {k : Kernel} (h : k.Fits) (hf : f.size = k.frameSize)
    (ht : table.size = k.samplers.length) : k.body.foldlM (Step.run? table) f =
      some (k.body.foldl (Step.run table) f) ∧ (k.body.foldl (Step.run table) f).size = k.frameSize := by
  refine foldlM_of_keeps k.body (fun s hs f hf => ⟨Step.run?_of_fits ?_, ?_⟩) f hf
  · rw [hf, ht]
    exact h.steps s hs
  · rw [Step.run, Target.size_write, hf]

theorem shade?_of_fits {k : Kernel} (h : k.Fits) (hf : f.size = k.frameSize) (ht : table.size = k.samplers.length)
    (pixel : Pixel) : k.shade? table f pixel = some (k.shade table f pixel) := by
  obtain ⟨started, hs, hsize, hshade⟩ : ∃ started, k.coordinate.elim (some f)
      (fun slot => f.put? slot pixel.coordinate) = some started ∧ started.size = k.frameSize ∧
        k.shade table f pixel = (k.color.elim .zero (k.body.foldl (Step.run table) started).get,
          k.body.foldl (Step.run table) started) := by
    unfold shade
    cases hc : k.coordinate with
    | none =>
      refine ⟨f, rfl, hf, ?_⟩
      cases k.color <;> rfl
    | some slot =>
      have hlt : slot < f.size := hf.symm ▸ h.coordinate slot hc
      refine ⟨f.put slot pixel.coordinate, Frame.put?_of_lt hlt _, (Frame.size_put f _ _).trans hf, ?_⟩
      cases k.color <;> rfl
  obtain ⟨hrun, hended⟩ := foldlM_run?_of_fits h hsize ht
  simp only [shade?, hs, hrun, hshade, Option.bind_eq_bind, Option.bind_some]
  cases hc : k.color with
  | none => rfl
  | some slot =>
    have hlt : slot < (k.body.foldl (Step.run table) started).size := hended.symm ▸ h.color slot hc
    simp only [Option.elim_some, Frame.getElem?_of_lt hlt]
    rfl

theorem paints?_of_fits {k : Kernel} (h : k.Fits) {entry : Frame} (he : entry.size = k.frameSize)
    (ht : table.size = k.samplers.length) : ∀ (pixels : List Pixel) (left : Frame), left.size = entry.size →
      k.paints? table entry left pixels =
        some (pixels.map fun pixel => ⟨pixel.x, pixel.y, (k.shade table entry pixel).1⟩)
  | [], _, _ => rfl
  | pixel :: rest, left, hl => by
    have hcopy : left.copyFrom? entry = some entry := by
      rw [Frame.copyFrom?, if_pos hl, Frame.copyFrom_of_size_eq hl]
    have hrest := paints?_of_fits h he ht rest (k.shade table entry pixel).2 (size_shade k table entry pixel)
    simp only [paints?, hcopy, Option.bind_eq_bind, Option.bind_some, shade?_of_fits h he ht pixel, hrest]
    rfl

end

theorem length_of_mapM {ε α β : Type} {g : α → Except ε β} : ∀ {xs : List α} {ys : List β},
    xs.mapM g = .ok ys → ys.length = xs.length
  | [], ys, h => by cases h; rfl
  | x :: xs, ys, h => by
    rw [List.mapM_cons] at h
    obtain ⟨y, -, h⟩ := except_bind_eq_ok.1 h
    obtain ⟨ys', hys, h⟩ := except_bind_eq_ok.1 h
    cases h
    rw [List.length_cons, List.length_cons, length_of_mapM hys]

/-- **A kernel that fits runs as well with its indices checked.** -/
theorem run?_of_fits {k : Kernel} (h : k.Fits) (b : Bindings) : k.run? b = some (k.run b) := by
  unfold run? run
  cases b.output with
  | none => rfl
  | some image =>
    cases hs : k.samplers.mapM b.samplerAt with
    | error fault => rfl
    | ok samplers =>
      obtain ⟨hbound, hsize⟩ := bound?_of_fits h b.constants
      have ht : samplers.toArray.size = k.samplers.length := length_of_mapM hs
      simp only [hbound, Option.bind_eq_bind, Option.bind_some, paints?_of_fits h hsize ht _ _ rfl]
      rw [b.draw_eq_painted image (fun f => f.size = (k.bound b.constants).size)
        (fun pixel left hleft => k.turn_spec samplers.toArray hleft pixel) rfl]
      simp [Bindings.painted]

/-! ## Compiled kernels -/

namespace Layout
variable {l : Layout}

theorem Reads.slot_lt {s : Source} {o : Operand} (h : l.Reads s o) (hv : l.Valid) : o.slot < l.entry.size := by
  obtain ⟨c, -, hs, -⟩ := h
  exact hv.cell_lt hs

theorem Writes.slots_lt {d : Destination} {t : Target} (h : l.Writes d t) (hv : l.Valid) :
    ∀ n ∈ t.slots, n < l.entry.size := by
  cases h with
  | full hc hn hm =>
    intro n' hn'
    rw [List.mem_singleton.1 hn']
    exact hv.cell_lt hn
  | masked hc hn hm hk =>
    intro n' hn'
    simp only [Target.slots, List.mem_cons, List.not_mem_nil, or_false] at hn'
    rcases hn' with rfl | rfl
    · exact hv.cell_lt hn
    · exact hv.lt (k := .mask d.mask) hk

theorem Lowers.fits {op : Operation} {s : Step} (h : l.Lowers op (some s)) (hv : l.Valid) :
    s.Fits l.entry.size l.samplers.length := by
  have hwrites : ∀ n ∈ s.target.slots, n < l.entry.size := by
    obtain ⟨d, -, hw⟩ := h.writes
    exact hw.slots_lt hv
  have hslots : (∀ a ∈ s.computation.operands, a.slot < l.entry.size) → ∀ n ∈ s.slots, n < l.entry.size := by
    intro ho n hn
    rcases List.mem_append.1 hn with hn | hn
    · exact hwrites n hn
    · obtain ⟨a, ha, rfl⟩ := List.mem_map.1 hn
      exact ho a ha
  cases h with
  | texld hw hr hs hn =>
    refine ⟨hslots ?_, fun n he => ?_⟩
    · simpa [Computation.operands] using hr.slot_lt hv
    · cases he
      exact (List.getElem?_eq_some_iff.1 hn).1
  | mov hw hr => exact ⟨hslots (by simpa [Computation.operands] using hr.slot_lt hv), fun n he => by cases he⟩
  | unary op hw hr => exact ⟨hslots (by simpa [Computation.operands] using hr.slot_lt hv), fun n he => by cases he⟩
  | binary op hw ha hb =>
    exact ⟨hslots (by simpa [Computation.operands] using ⟨ha.slot_lt hv, hb.slot_lt hv⟩), fun n he => by cases he⟩
  | ternary op hw ha hb hc =>
    exact ⟨hslots (by simpa [Computation.operands] using ⟨ha.slot_lt hv, hb.slot_lt hv, hc.slot_lt hv⟩),
      fun n he => by cases he⟩

theorem Writes.cell {d : Destination} {t : Target} (h : l.Writes d t) :
    ∃ c, d.cell = .ok c ∧ l.cell? c = some t.slot := by
  cases h with
  | full hc hn _ => exact ⟨_, hc, hn⟩
  | masked hc hn _ _ => exact ⟨_, hc, hn⟩

theorem Lowers.target_slot {op : Operation} {s : Step} (h : l.Lowers op (some s)) :
    ∃ c : Cell, l.cell? c = some s.target.slot ∧ (c.file = .temp ∨ c = .color) := by
  obtain ⟨d, -, hw⟩ := h.writes
  obtain ⟨c, hc, hn⟩ := hw.cell
  exact ⟨c, hn, Destination.cell_file hc⟩

theorem LowersAll.lowers {is : List Instruction} {ss : List Step} (h : l.LowersAll is ss) {s : Step} (hs : s ∈ ss) :
    ∃ i ∈ is, l.Lowers i.operation (some s) := by
  induction h with
  | nil => cases hs
  | @cons i is s' ss h₁ _ ih =>
    rcases List.mem_append.1 hs with hs | hs
    · rw [Option.mem_toList] at hs
      exact ⟨i, List.mem_cons_self, hs ▸ h₁⟩
    · obtain ⟨j, hj, hl⟩ := ih hs
      exact ⟨j, List.mem_cons_of_mem i hj, hl⟩

theorem Lays.fits {p : Program} {body : List Step} (h : l.Lays p body) : (ofLayout l body).Fits where
  steps s hs := by
    obtain ⟨i, -, hl⟩ := h.steps.lowers hs
    exact hl.fits h.valid
  externals e he := h.valid.cell_lt (h.valid.external he)
  coordinate n hn := h.valid.cell_lt hn
  color n hn := h.valid.cell_lt hn

def register? (l : Layout) (r : Register) : Option Nat := r.readCell.toOption.bind l.cell?

theorem register?_eq_some {r : Register} {n : Nat} :
    l.register? r = some n ↔ ∃ c, r.readCell = .ok c ∧ l.cell? c = some n := by
  unfold register?
  cases r.readCell <;> simp [Except.toOption]

theorem Valid.register_inj (hv : l.Valid) {r r' : Register} {n : Nat} (h : l.register? r = some n)
    (h' : l.register? r' = some n) : r = r' := by
  obtain ⟨c, hr, hc⟩ := register?_eq_some.1 h
  obtain ⟨c', hr', hc'⟩ := register?_eq_some.1 h'
  rw [← Register.register_of_readCell hr, ← Register.register_of_readCell hr', hv.cell_inj hc hc']

theorem Valid.register_ne_mask (hv : l.Valid) {r : Register} {m : WriteMask} {n : Nat} (hm : l.mask? m = some n) :
    l.register? r ≠ some n := by
  intro h
  obtain ⟨c, -, hc⟩ := register?_eq_some.1 h
  exact hv.cell_ne_mask hc hm rfl

theorem Valid.mask_inj (hv : l.Valid) {m m' : WriteMask} {n : Nat} (h : l.mask? m = some n)
    (h' : l.mask? m' = some n) : m = m' := Tenant.mask.inj (hv.inj (j := .mask m) (k := .mask m') h h')

theorem Lowers.register_target {op : Operation} {s : Step} (h : l.Lowers op (some s)) (hv : l.Valid) {r : Register}
    (hr : l.register? r = some s.target.slot) : r.kind = .temp ∨ r.kind = .colorOut := by
  obtain ⟨c, hc, hfile⟩ := h.target_slot
  obtain ⟨c', hc', hn⟩ := register?_eq_some.1 hr
  rw [← Register.register_of_readCell hc', hv.cell_inj hn hc]
  rcases hfile with hf | rfl
  · exact .inl (by rw [Cell.register, hf]; rfl)
  · exact .inr rfl

end Layout

/-- **The frame of a compiled program is laid out soundly.**  No two registers and masks share a slot, and steps have
their operands in those slots.  All indices are within the frame and the list of samplers.  No step writes a constant,
a mask or the coordinate.  The frame has one slot for each thing that the program mentions and no others.  So a run with
all indices checked is the run. -/
theorem compile_layout_sound (p : Program) (k : Kernel) (h : compile p = .ok k) :
    ∃ steps l, lower p = .ok (steps, l) ∧ ofLayout l steps.toList = k ∧ l.LowersAll p.instructions k.body ∧
      (∀ r r' n, l.register? r = some n → l.register? r' = some n → r = r') ∧
      (∀ m r n, l.mask? m = some n → l.register? r ≠ some n) ∧
      (∀ m m' n, l.mask? m = some n → l.mask? m' = some n → m = m') ∧
      (∀ s ∈ k.body, (∀ n ∈ s.slots, n < k.frameSize) ∧ ∀ n ∈ s.computation.position?, n < k.samplers.length) ∧
      (∀ e ∈ k.externals, e.1 < k.frameSize) ∧ (∀ n ∈ k.coordinate, n < k.frameSize) ∧
      (∀ n ∈ k.color, n < k.frameSize) ∧
      (∀ s ∈ k.body, (∀ i, l.register? ⟨.constant, i⟩ ≠ some s.target.slot) ∧
        (∀ m, l.mask? m ≠ some s.target.slot) ∧ l.register? ⟨.texture, 0⟩ ≠ some s.target.slot) ∧
      k.frameSize = (p.defined ++ numbersOf .constant p.read).dedup.length
        + (numbersOf .temp (p.written ++ p.read)).dedup.length
        + (if ⟨.colorOut, 0⟩ ∈ p.written ++ p.read then 1 else 0)
        + (if ⟨.texture, 0⟩ ∈ p.declared ++ p.read then 1 else 0)
        + p.writtenPartly.dedup.length ∧
      ∀ b, k.run? b = some (k.run b) := by
  obtain ⟨steps, l, hl, rfl⟩ := compile_eq_ok.1 h
  have hlays := lower_spec hl
  have hv := hlays.valid
  have hfits := hlays.fits
  refine ⟨steps, l, hl, rfl, hlays.steps, fun r r' n => hv.register_inj, fun m r n => hv.register_ne_mask,
    fun m m' n => hv.mask_inj, fun s hs => ⟨(hfits.steps s hs).slots, (hfits.steps s hs).position⟩, hfits.externals,
    hfits.coordinate, hfits.color, fun s hs => ?_, size_entry_of_lower hl, run?_of_fits hfits⟩
  obtain ⟨i, -, hlow⟩ := hlays.steps.lowers hs
  refine ⟨fun n hn => ?_, fun m hm => ?_, fun hn => ?_⟩
  · rcases hlow.register_target hv hn with hk | hk <;> cases hk
  · obtain ⟨c, hc, -⟩ := hlow.target_slot
    exact hv.cell_ne_mask hc hm rfl
  · rcases hlow.register_target hv hn with hk | hk <;> cases hk

/-- Two constants, one temporary register, the colour, the coordinate and one partial mask. -/
theorem compile_tint_layout : ∃ k, compile tint = .ok k ∧ k.frameSize = 6 ∧ k.samplers.length = 1 ∧
    k.run? tintBindings = some (k.run tintBindings) := by
  obtain ⟨k, hk⟩ : ∃ k, compile tint = .ok k := ⟨_, rfl⟩
  obtain ⟨_, _, _, _, _, _, _, _, _, _, _, _, _, hsize, hrun⟩ := compile_layout_sound tint k hk
  have hsamplers : k.samplers.length = 1 := by
    cases hk
    rfl
  exact ⟨k, hk, hsize.trans (by decide), hsamplers, hrun tintBindings⟩

end PixelShader.Kernel
