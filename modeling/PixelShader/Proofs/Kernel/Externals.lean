import Mathlib
import PixelShader.Proofs.Agreement
import PixelShader.Proofs.Kernel.Occupancy
/-!
# What a kernel takes from the bindings

A kernel lists the constants that it takes from the bindings, and of the other constants it sees none: one that the
program defines is in the frame from the start, and one that it does not read has no slot.  So the list is what the
program requires, and a run depends on nothing but the listed constants, the samplers that are sampled and the size of
the output.
-/
namespace PixelShader

/-! ## The list -/

theorem Operation.Supported.constant_lt {op : Operation} (h : op.Supported) {s : Source} (hs : s ∈ op.sources)
    {n : UInt32} (hr : s.register = ⟨.constant, n⟩) : n.toNat < registerSlots := by
  have ho : s ∈ op.operands := Kernel.mem_operands_of_mem_sources h hs (by simp [hr])
  obtain ⟨⟨⟨file, slot⟩, negate⟩, hc⟩ := h.operands s ho
  have hn : Cell.register ⟨file, slot⟩ = ⟨.constant, n⟩ :=
    (Register.register_of_readCell (Source.cell_eq_ok.1 hc).1).trans hr
  rw [← (Register.mk.inj hn).2, toNat_slot]
  exact slot.isLt

theorem Program.pairwise_externalConstants (p : Program) : p.externalConstants.Pairwise (· < ·) :=
  (List.pairwise_lt_finRange registerSlots).filter _

/-! ## Bindings that a program cannot tell apart -/

/-- The bindings have an output of the same size, or none, and the same samplers in the slots that the program
samples. -/
structure Bindings.Alike (b b' : Bindings) (p : Program) : Prop where
  output : b.output.map (fun i => (i.width, i.height)) = b'.output.map fun i => (i.width, i.height)
  samplers : ∀ n ∈ p.samplerNumbers, b.sampler n = b'.sampler n

section
variable {b b' : Bindings} {p : Program}

theorem Bindings.Alike.supply (h : b.Alike b' p) :
    (∃ fault, b.supply p = .error fault ∧ b'.supply p = .error fault) ∨
      ∃ image image', b.supply p = .ok image ∧ b'.supply p = .ok image' ∧
        image.width = image'.width ∧ image.height = image'.height := by
  have hfind : p.samplerNumbers.find? (fun n => !(b.sampler n).isOk) =
      p.samplerNumbers.find? fun n => !(b'.sampler n).isOk :=
    List.find?_congr fun n hn => by rw [h.samplers n hn]
  have ho := h.output
  unfold Bindings.supply
  rw [← hfind]
  cases hb : b.output with
  | none =>
    rw [hb, Option.map_none, eq_comm, Option.map_eq_none_iff] at ho
    rw [ho]
    exact .inl ⟨_, rfl, rfl⟩
  | some image =>
    rw [hb, Option.map_some, eq_comm, Option.map_eq_some_iff] at ho
    obtain ⟨image', hb', hsize⟩ := ho
    obtain ⟨hw, hh⟩ := Prod.mk.inj hsize
    rw [hb']
    cases p.samplerNumbers.find? fun n => !(b.sampler n).isOk with
    | some n => exact .inl ⟨_, rfl, rfl⟩
    | none => exact .inr ⟨image, image', rfl, rfl, hw.symm, hh.symm⟩

theorem Bindings.get_eq_of_sampler {s : Slot} (h : b.sampler (UInt32.ofNat s) = b'.sampler (UInt32.ofNat s)) :
    b.samplers.get s = b'.samplers.get s := by
  rw [sampler_ofNat, sampler_ofNat, samplerAt_of_get, samplerAt_of_get] at h
  cases hs : b.samplers.get s <;> cases hs' : b'.samplers.get s <;> simp_all

theorem Bindings.Alike.get (h : b.Alike b' p) {i : Instruction} (hi : i ∈ p.instructions) {s : Slot}
    (hs : i.operation.samplerSlot? = some s) : b.samplers.get s = b'.samplers.get s := by
  refine Bindings.get_eq_of_sampler (h.samplers _ (List.mem_filterMap.2 ⟨i, hi, ?_⟩))
  obtain ⟨a, ha, hslot⟩ := Option.bind_eq_some_iff.1 hs
  rw [ha, Option.map_some]
  cases hx : a.samplerSlot with
  | error e =>
    rw [hx] at hslot
    cases hslot
  | ok slot =>
    rw [hx] at hslot
    cases hslot
    rw [Source.samplerSlot_number hx]

theorem Bindings.painted_congr {image image' : Image} {color color' : Pixel → Quad}
    (hw : image.width = image'.width) (hh : image.height = image'.height) (hc : ∀ pixel, color pixel = color' pixel) :
    (b.painted image color).outcome = (b'.painted image' color').outcome ∧
      (b.painted image color).paints = (b'.painted image' color').paints := by
  obtain rfl : color = color' := funext hc
  simp only [Bindings.painted, hw, hh, and_self]

end

/-! ## Runs -/

namespace Kernel
variable {p : Program} {k : Kernel}

theorem Layout.defineAll_eqOn (l : Layout) {c c' : ConstantTable} (coordinate : Quad)
    (h : ∀ s ∈ p.externalConstants, c.getOrZero (UInt32.ofNat s) = c'.getOrZero (UInt32.ofNat s)) :
    Set.EqOn (defineAll p.instructions (startValues c coordinate))
      (defineAll p.instructions (startValues c' coordinate)) (l.relevant p) := by
  rintro ⟨file, s⟩ hc
  by_cases hf : file = .constant
  · subst hf
    by_cases hd : p.definesConstant s = true
    · exact defineAll_apply_of_defined _ _ _ ((definesConstant_iff p s).1 hd)
    · have hx : s ∈ p.externalConstants := by simp [Program.externalConstants, hd, hc.1 rfl]
      exact defineAll_congr_apply _ _ _ (by rw [startValues_constant, startValues_constant, h s hx])
  · rw [defineAll_apply_of_file hf, defineAll_apply_of_file hf]
    simp only [startValues, hf, if_false]

theorem computeAll_alike (hk : compile p = .ok k) {b b' : Bindings} (hs : b.Alike b' p)
    (hc : ∀ s ∈ p.externalConstants,
      b.constants.getOrZero (UInt32.ofNat s) = b'.constants.getOrZero (UInt32.ofNat s)) (coordinate : Quad) :
    computeAll b.samplers.get p.instructions (defineAll p.instructions (startValues b.constants coordinate)) .color =
      computeAll b'.samplers.get p.instructions
        (defineAll p.instructions (startValues b'.constants coordinate)) .color := by
  obtain ⟨l, body, rfl, hl⟩ := compile_spec hk
  rw [computeAll_congr_samplers p.instructions _ fun i hi s hslot => hs.get hi hslot]
  exact computeAll_eqOn _ p.instructions _ _ (fun i hi c hr => hl.reads_relevant hi hr) (l.defineAll_eqOn coordinate hc)
    l.color_relevant

/-- **A run depends on the listed constants, the samplers that are sampled and the size of the output only.** -/
theorem run_alike (hk : compile p = .ok k) {b b' : Bindings} (hs : b.Alike b' p)
    (hc : ∀ s ∈ p.externalConstants,
      b.constants.getOrZero (UInt32.ofNat s) = b'.constants.getOrZero (UInt32.ofNat s)) :
    (k.run b).outcome = (k.run b').outcome ∧ (k.run b).paints = (k.run b').paints := by
  have hr := run_spec hk b
  have hr' := run_spec hk b'
  rcases hs.supply with ⟨fault, hb, hb'⟩ | ⟨image, image', hb, hb', hw, hh⟩
  · rw [hb] at hr
    rw [hb'] at hr'
    rw [hr, hr']
    exact ⟨rfl, rfl⟩
  · simp only [hb] at hr
    simp only [hb'] at hr'
    rw [hr, hr']
    exact Bindings.painted_congr hw hh fun pixel => computeAll_alike hk hs hc pixel.coordinate

/-- **The constants that a kernel lists are the ones it depends on.**  They ascend, and are those that the program reads
and does not define.  Bindings that agree on them, on the samplers that are sampled and on the size of the output make
runs that end alike and paint the same. -/
theorem externalConstants_exact (hk : compile p = .ok k) :
    k.externalConstants.Pairwise (· < ·) ∧
      (∀ n : UInt32, (∃ s ∈ k.externalConstants, UInt32.ofNat s = n) ↔ p.Requires n) ∧
      ∀ b b' : Bindings, b.Alike b' p →
        (∀ s ∈ k.externalConstants, b.constantOrZero (UInt32.ofNat s) = b'.constantOrZero (UInt32.ofNat s)) →
          (k.run b).outcome = (k.run b').outcome ∧ (k.run b).paints = (k.run b').paints := by
  obtain ⟨l, body, rfl, h⟩ := compile_spec hk
  have hx : (ofLayout l body).externalConstants = p.externalConstants := h.externals
  rw [hx]
  refine ⟨p.pairwise_externalConstants, fun n => (Program.requires_iff_of_lt ?_).symm, fun b b' => run_alike hk⟩
  rintro ⟨⟨i, hi, s, hs, hr⟩, -⟩
  exact (h.supported i hi).constant_lt hs hr

def tintBindingsElsewhere : Bindings where
  constants := ⟨[(0, .splat .two), (7, .one), (8, .one), (40, .one)]⟩
  samplers := ⟨tintBindings.samplers.entries ++ #[none, some ⟨(Image.blank 1 1).surface, .legacyWidth⟩]⟩
  output := some (.filled 3 2 0xffffffff)

/-- `tint` defines one of the constants it reads and takes the other. -/
theorem run_tint_elsewhere : ∃ k, compile tint = .ok k ∧ k.externalConstants = [7] ∧
    tintBindings.Alike tintBindingsElsewhere tint ∧
    (k.run tintBindings).paints = (k.run tintBindingsElsewhere).paints := by
  have ha : tintBindings.Alike tintBindingsElsewhere tint := by
    refine ⟨rfl, fun n hn => ?_⟩
    obtain rfl := List.mem_singleton.1 hn
    rfl
  obtain ⟨-, -, hr⟩ := externalConstants_exact (p := tint) rfl
  refine ⟨_, rfl, by decide, ha, (hr _ _ ha fun s hs => ?_).2⟩
  obtain rfl := List.mem_singleton.1 hs
  rfl

end Kernel
end PixelShader
