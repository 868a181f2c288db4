import Mathlib
import PixelShader.Proofs.Samplers
/-!
# Renderings that end well, and those that never begin

What a program needs of the bindings is an output and every sampler it samples (`Bindings.supply`), and it does not take
a strategy to say what is missing first.  A rendering that has all it needs and shades every pixel paints each of them
once, in the order of the walk (`draw_eq_painted`).
-/
namespace PixelShader

/-! ## What is needed -/

def Program.samplerNumbers (p : Program) : List UInt32 :=
  p.instructions.filterMap fun i => i.operation.sampler?.map (·.register.number)

/-- The output to be painted, if nothing is missing.  The output is looked for first, then the samplers in the order of
the instructions. -/
def Bindings.supply (b : Bindings) (p : Program) : Except BindingFault Image :=
  match b.output with
  | none => .error (.unboundOutput 0)
  | some image =>
    match p.samplerNumbers.find? fun n => !(b.sampler n).isOk with
    | some n => .error (.unboundSampler n)
    | none => .ok image

/-- How a rendering of a program that can be executed ends. -/
def Bindings.verdict (b : Bindings) (p : Program) : Except Fault Unit :=
  match b.supply p with
  | .error fault => .error (.binding fault)
  | .ok _ => .ok ()

theorem Bindings.supply_eq_ok {b : Bindings} {p : Program} {image : Image} (ho : b.output = some image)
    (hs : ∀ n ∈ p.samplerNumbers, ∃ s, b.sampler n = .ok s) : b.supply p = .ok image := by
  have hf : p.samplerNumbers.find? (fun n => !(b.sampler n).isOk) = none := by
    rw [List.find?_eq_none]
    intro n hn
    obtain ⟨s, hs⟩ := hs n hn
    simp [hs, Except.isOk, Except.toBool]
  simp only [supply, ho, hf]

theorem toNat_slot (s : Slot) : (UInt32.ofNat s).toNat = s.val :=
  UInt32.toNat_ofNat_of_lt' (Nat.lt_trans s.isLt (by decide))

theorem SlotTable.check_sampler {i : UInt32} (h : i.toNat < registerSlots) : sampler.check i = .ok ⟨i.toNat, h⟩ :=
  dif_pos h

theorem Bindings.sampler_ofNat (b : Bindings) (s : Slot) : b.sampler (UInt32.ofNat s) = b.samplerAt s := by
  have hs : (UInt32.ofNat s).toNat < registerSlots := by
    rw [toNat_slot]
    exact s.isLt
  have hc : SlotTable.sampler.check (UInt32.ofNat s) = .ok s := by
    rw [SlotTable.check_sampler hs]
    congr 1
    exact Fin.ext (toNat_slot s)
  simp only [sampler, hc, bind, Except.bind]

theorem Bindings.isOk_sampler_ofNat (b : Bindings) (s : Slot) : (!(b.sampler (UInt32.ofNat s)).isOk) = b.lacks s := by
  rw [sampler_ofNat, samplerAt_of_get, lacks]
  cases b.samplers.get s <;> rfl

theorem Source.samplerSlot_number {s : Source} {slot : Slot} (h : s.samplerSlot = .ok slot) :
    s.register.number = UInt32.ofNat slot := by
  unfold samplerSlot at h
  split at h
  · cases h
  · exact Register.slot_eq_ok.1 h

theorem map_samplerSlots : ∀ is : List Instruction, (∀ i ∈ is, i.operation.Supported) →
    (is.filterMap fun i => i.operation.sampler?.map (·.register.number)) =
      (samplerSlots is).map fun s : Slot => UInt32.ofNat s
  | [], _ => rfl
  | i :: is, h => by
    have ih := map_samplerSlots is fun j hj => h j (List.mem_cons_of_mem i hj)
    have hs := (h i List.mem_cons_self).sampler
    unfold samplerSlots at ih ⊢
    rw [List.filterMap_cons, List.filterMap_cons, Operation.samplerSlot?]
    cases ho : i.operation.sampler? with
    | none => exact ih
    | some s =>
      obtain ⟨slot, hslot⟩ := hs s ho
      simp only [Option.map_some, Option.bind_some, hslot, Except.toOption, List.map_cons, ih,
        Source.samplerSlot_number hslot]

theorem Bindings.supply_of_supported (b : Bindings) {p : Program} (h : ∀ i ∈ p.instructions, i.operation.Supported) :
    b.supply p = match b.output with
      | none => .error (.unboundOutput 0)
      | some image =>
        match ((samplerSlots p.instructions).foldl noteNew []).find? b.lacks with
        | some s => .error (.unboundSampler (UInt32.ofNat s))
        | none => .ok image := by
  have hq : ((fun n => !(b.sampler n).isOk) ∘ fun s : Slot => UInt32.ofNat s) = b.lacks :=
    funext b.isOk_sampler_ofNat
  unfold supply Program.samplerNumbers
  rw [map_samplerSlots p.instructions h, List.find?_map, hq, find?_foldl_noteNew, List.nil_append]
  cases b.output with
  | none => rfl
  | some image => cases (samplerSlots p.instructions).find? b.lacks <;> rfl

/-! ## Where a pixel starts -/

/-- The values of all cells before the first instruction: the bound constants, the coordinate, and zero. -/
def startValues (constants : ConstantTable) (coordinate : Quad) : Valuation := fun c =>
  if c = .coordinate then coordinate
  else if c.file = .constant then constants.getOrZero (UInt32.ofNat c.slot)
  else .zero

section
variable (constants : ConstantTable) (coordinate : Quad)

theorem startValues_coordinate : startValues constants coordinate .coordinate = coordinate := rfl

theorem startValues_constant (s : Slot) :
    startValues constants coordinate ⟨.constant, s⟩ = constants.getOrZero (UInt32.ofNat s) := by
  simp [startValues, Cell.coordinate]

theorem startValues_of_ne {c : Cell} (hf : c.file ≠ .constant) (hc : c ≠ .coordinate) :
    startValues constants coordinate c = .zero := by
  rw [startValues, if_neg hc, if_neg hf]

end

/-! ## Painting -/

/-- The rendering that paints every pixel with a colour of its own. -/
def Bindings.painted (b : Bindings) (image : Image) (color : Pixel → Quad) : Rendering :=
  let paints := ((Walk.pixels image.width image.height).map fun p => Paint.mk p.x p.y (color p)).toArray
  ⟨{ b with output := some (paints.foldl Image.paint image) }, paints, .ok ()⟩

section
variable {σ : Type} {shade : Pixel → EStateM Fault σ Quad} {color : Pixel → Quad}

/-- Where the colour of a pixel does not depend on the state that it finds, as long as something is kept of it, and that
is kept for the next one, the colours are those of the pixels by themselves. -/
theorem shadePixels_of_ok {Kept : σ → Prop}
    (h : ∀ p s, Kept s → ∃ s', (shade p).run s = .ok (color p) s' ∧ Kept s') :
    ∀ (pixels : List Pixel) (state : σ) (done : Array Paint), Kept state →
      shadePixels shade state done pixels = (done ++ (pixels.map fun p => Paint.mk p.x p.y (color p)).toArray, .ok ())
  | [], state, done, _ => by simp [shadePixels]
  | p :: pixels, state, done, hs => by
    obtain ⟨s', hp, hs'⟩ := h p state hs
    simp only [shadePixels, hp]
    rw [shadePixels_of_ok h pixels s' _ hs']
    simp

theorem Bindings.draw_eq_painted (b : Bindings) (image : Image) (Kept : σ → Prop)
    (h : ∀ p s, Kept s → ∃ s', (shade p).run s = .ok (color p) s' ∧ Kept s') {state : σ} (hs : Kept state) :
    b.draw shade image state = b.painted image color := by
  unfold draw painted
  rw [shadePixels_of_ok h _ _ _ hs]
  simp

end
end PixelShader
