import Mathlib
import PixelShader.Proofs.Coordinates
import PixelShader.Proofs.PixelMap
import PixelShader.Proofs.Texture.Sampler
/-!
# Copying a texture

`copy` samples a texture at the coordinate of the pixel and paints what it finds.  Packing loses nothing, so that the
copy of a texture holds at each position the texel that the coordinate there selects (`Bindings.render_copy`).  Hence
all textures of a size are copied as they are exactly when every coordinate of that size selects its own texel.
-/
namespace PixelShader

def copy : Program where
  instructions := [
    { operation := .declare .unknown { register := ⟨.texture, 0⟩, mask := .xy } },
    { operation := .declare .flat { register := ⟨.samplerState, 0⟩ } },
    { operation := .texld { register := ⟨.colorOut, 0⟩ } { register := ⟨.texture, 0⟩ } { register := ⟨.samplerState, 0⟩ } }]

structure Bindings.Copies (b : Bindings) (source : Image) : Prop where
  sampler : b.sampler 0 = .ok ⟨source.surface, .height⟩
  output : ∃ image, b.output = some image ∧ image.width = source.width ∧ image.height = source.height

/-- Any texture of the size is copied as it is. -/
def Backend.CopiesExactly (backend : Backend) (width height : UInt32) : Prop :=
  ∀ (b : Bindings) (source : Image), source.width = width → source.height = height → b.Copies source →
    (b.render backend copy).outcome = .ok () ∧ (b.render backend copy).bindings = { b with output := some source }

/-- The coordinate of every pixel of the size selects the texel at the pixel's position. -/
def Walk.SamplesOwn (width height : UInt32) : Prop :=
  ∀ p ∈ pixels width height, texelIndex p.u width width = p.x ∧ texelIndex p.v height height = p.y

theorem registerSlots_pos : 0 < registerSlots := by decide

/-! ## One copy -/

section
variable {b : Bindings} {source : Image} {backend : Backend}

theorem Bindings.Copies.get_sampler (h : b.Copies source) :
    b.samplers.get ⟨0, registerSlots_pos⟩ = some ⟨source.surface, .height⟩ := by
  have hs := h.sampler
  change b.samplerAt ⟨0, registerSlots_pos⟩ = _ at hs
  unfold samplerAt at hs
  split at hs
  · rename_i s hget
    rw [← Except.ok.inj hs]
    exact hget
  · cases hs

theorem Bindings.Copies.outcome (h : b.Copies source) (backend : Backend) :
    (b.render backend copy).outcome = .ok () := by
  obtain ⟨image, ho, -⟩ := h.output
  have hs : b.supply copy = .ok image := by
    refine b.supply_eq_ok ho fun n hn => ?_
    obtain rfl := List.mem_singleton.1 hn
    exact ⟨_, h.sampler⟩
  cases backend with
  | interpreter =>
    obtain ⟨i, hi⟩ : ∃ i, Interpreter.ofProgram copy = .ok i := ⟨_, rfl⟩
    have hrun := Interpreter.run_spec hi b
    simp only [hs] at hrun
    simp only [render, hi, hrun]
    rfl
  | compiler =>
    obtain ⟨k, hk⟩ : ∃ k, Kernel.compile copy = .ok k := ⟨_, rfl⟩
    have hrun := Kernel.run_spec hk b
    simp only [hs] at hrun
    simp only [render, hk, hrun]
    rfl

theorem Backend.color_copy (backend : Backend) {find : Slot → Option Sampler} {s : Sampler}
    (h : find ⟨0, registerSlots_pos⟩ = some s) (constants : ConstantTable) (coordinate : Quad) :
    backend.color copy find constants coordinate = s.sample coordinate := by
  have hsample : (find ⟨0, registerSlots_pos⟩).elim Quad.zero (·.sample coordinate) = s.sample coordinate := by
    rw [h]
    rfl
  -- declarations compute nothing and the mask is full, so that sampling is all that either strategy does
  cases backend with
  | interpreter => exact hsample
  | compiler => exact hsample

/-- **A copy holds at each position the texel that the coordinate there selects.** -/
theorem Bindings.render_copy (h : b.Copies source) (hw : source.width ≠ 0) (hh : source.height ≠ 0) (backend : Backend) :
    ∃ result, (b.render backend copy).outcome = .ok () ∧
      (b.render backend copy).bindings = { b with output := some result } ∧
      result.width = source.width ∧ result.height = source.height ∧
      ∀ p ∈ Walk.pixels source.width source.height, result.read p.x p.y =
        source.read (texelIndex p.u source.width source.width) (texelIndex p.v source.height source.height) := by
  obtain ⟨image, ho, hwidth, hheight⟩ := h.output
  have hfind : b.sampled copy ⟨0, registerSlots_pos⟩ = some ⟨source.surface, .height⟩ := h.get_sampler
  rw [render_eq_painted ho (h.outcome backend)]
  obtain ⟨result, hb, hwidth', hheight', hread⟩ := @output_painted b image fun pixel =>
    backend.color copy (b.sampled copy) b.constants pixel.coordinate
  refine ⟨result, rfl, hb, hwidth'.trans hwidth, hheight'.trans hheight, fun p hp => ?_⟩
  rw [← hwidth, ← hheight] at hp
  obtain ⟨hx, hy, hat⟩ := Walk.mem_pixels.1 hp
  rw [hread p.x p.y hx hy, ← hat, backend.color_copy hfind, Image.sample_surface hw hh .height, Texel.pack_unpack]
  rfl

end

/-! ## All copies of a size -/

def Image.spot (width height x y : UInt32) : Image := (Image.blank width height).write x y 0xffffffff

theorem Image.read_spot {width height x y : UInt32} (hx : x < width) (hy : y < height) (x' y' : UInt32) :
    (spot width height x y).read x' y' = if x' = x ∧ y' = y then 0xffffffff else 0 := by
  rw [spot, read_write, read_blank]
  have hin : x < (blank width height).width ∧ y < (blank width height).height := ⟨hx, hy⟩
  simp only [hin, and_self, and_true]

def Bindings.copying (source : Image) : Bindings where
  samplers := SamplerBank.set {} ⟨0, registerSlots_pos⟩ ⟨source.surface, .height⟩
  output := some (.blank source.width source.height)

theorem Bindings.copies_copying (source : Image) : (copying source).Copies source := ⟨rfl, _, rfl, rfl, rfl⟩

section
variable {width height : UInt32} {backend : Backend}

theorem Walk.samplesOwn_of_selectsOwn (hw : SelectsOwn width) (hh : SelectsOwn height) : SamplesOwn width height := by
  intro p hp
  obtain ⟨hx, hy, hat⟩ := mem_pixels.1 hp
  rw [hat]
  exact ⟨hw _ hx, hh _ hy⟩

theorem Backend.copiesExactly_of_samplesOwn (hw : width ≠ 0) (hh : height ≠ 0) (h : Walk.SamplesOwn width height) :
    backend.CopiesExactly width height := by
  rintro b source rfl rfl hb
  obtain ⟨result, hr, hbindings, hwidth, hheight, hread⟩ := b.render_copy hb hw hh backend
  have hsame : result = source := by
    refine Image.ext_read hwidth hheight fun x y hx hy => ?_
    have hp := Walk.pixelAt_mem_pixels (hwidth ▸ hx) (hheight ▸ hy)
    have htexel := hread _ hp
    rw [(h _ hp).1, (h _ hp).2] at htexel
    simpa [Walk.pixelAt] using htexel
  rw [← hsame]
  exact ⟨hr, hbindings⟩

theorem Backend.samplesOwn_of_copiesExactly (hw : width ≠ 0) (hh : height ≠ 0) (h : backend.CopiesExactly width height) :
    Walk.SamplesOwn width height := by
  intro p hp
  obtain ⟨hx, hy, -⟩ := Walk.mem_pixels.1 hp
  -- with a spot at the pixel's position, the copy has it there only if the coordinate selects it
  have hb := Bindings.copies_copying (.spot width height p.x p.y)
  have hwidth : (Image.spot width height p.x p.y).width = width := Image.width_write ..
  have hheight : (Image.spot width height p.x p.y).height = height := Image.height_write ..
  obtain ⟨result, -, hbindings, -, -, hread⟩ :=
    Bindings.render_copy hb (by rwa [hwidth]) (by rwa [hheight]) backend
  have hsame : result = .spot width height p.x p.y := by
    have hcopy := (h _ _ hwidth hheight hb).2
    rw [hbindings] at hcopy
    exact Option.some.inj (congrArg Bindings.output hcopy)
  rw [hwidth, hheight] at hread
  have htexel := hread p hp
  rw [hsame, Image.read_spot hx hy, Image.read_spot hx hy, if_pos ⟨rfl, rfl⟩] at htexel
  by_contra hother
  rw [if_neg hother] at htexel
  exact absurd htexel (by decide)

end

/-- **A copy is made of the texels that the coordinates select, so all textures of a size are copied as they are exactly
when every coordinate selects its own texel.**  Up to a width and height of 5858 it does. -/
theorem copy_exact_iff_samplesOwn {width height : UInt32} (hw : 1 ≤ width) (hh : 1 ≤ height) (backend : Backend) :
    (∀ (b : Bindings) (source : Image), source.width = width → source.height = height → b.Copies source →
      ∃ result, (b.render backend copy).outcome = .ok () ∧
        (b.render backend copy).bindings = { b with output := some result } ∧
        result.width = width ∧ result.height = height ∧
        ∀ p ∈ Walk.pixels width height, result.read p.x p.y =
          source.read (texelIndex p.u width width) (texelIndex p.v height height)) ∧
    (backend.CopiesExactly width height ↔ Walk.SamplesOwn width height) ∧
    (width ≤ 5858 → height ≤ 5858 → backend.CopiesExactly width height ∧ Walk.SamplesOwn width height) := by
  have hw0 : width ≠ 0 := by
    rintro rfl
    exact absurd hw (by decide)
  have hh0 : height ≠ 0 := by
    rintro rfl
    exact absurd hh (by decide)
  refine ⟨?_, ⟨backend.samplesOwn_of_copiesExactly hw0 hh0, backend.copiesExactly_of_samplesOwn hw0 hh0⟩, ?_⟩
  · rintro b source rfl rfl hb
    exact Bindings.render_copy hb hw0 hh0 backend
  · intro hwidth hheight
    have hown := Walk.samplesOwn_of_selectsOwn (Walk.selectsOwn_of_le hw hwidth) (Walk.selectsOwn_of_le hh hheight)
    exact ⟨backend.copiesExactly_of_samplesOwn hw0 hh0 hown, hown⟩

/-- At 5858 columns the spot in column 5852 is copied to its place and to no other. -/
theorem copy_spot_exact :
    (Bindings.copying (.spot 5858 1 5852 0)).Copies (.spot 5858 1 5852 0) ∧
    ((Bindings.copying (.spot 5858 1 5852 0)).render .compiler copy).outcome = .ok () ∧
    ((Bindings.copying (.spot 5858 1 5852 0)).render .compiler copy).bindings =
      { Bindings.copying (.spot 5858 1 5852 0) with output := some (.spot 5858 1 5852 0) } := by
  have hb := Bindings.copies_copying (.spot 5858 1 5852 0)
  obtain ⟨-, -, hexact⟩ := @copy_exact_iff_samplesOwn 5858 1 (by decide) (by decide) .compiler
  exact ⟨hb, (hexact (by decide) (by decide)).1 _ _ (Image.width_write ..) (Image.height_write ..) hb⟩

/-- At 5859 columns the pixel in column 5853 takes its colour from column 5852, where the spot is. -/
theorem copy_spot_smeared :
    (∃ result, ((Bindings.copying (.spot 5859 1 5852 0)).render .interpreter copy).bindings.output = some result ∧
      result.read 5853 0 = 0xffffffff) ∧
    (∃ result, ((Bindings.copying (.spot 5859 1 5852 0)).render .compiler copy).bindings.output = some result ∧
      result.read 5853 0 = 0xffffffff) ∧
    (Image.spot 5859 1 5852 0).read 5853 0 = 0 := by
  have hboth : ∀ backend, ∃ result,
      ((Bindings.copying (.spot 5859 1 5852 0)).render backend copy).bindings.output = some result ∧
        result.read 5853 0 = 0xffffffff := by
    intro backend
    obtain ⟨result, -, hbindings, -, -, hread⟩ :=
      Bindings.render_copy (Bindings.copies_copying (.spot 5859 1 5852 0)) (by decide) (by decide) backend
    have hp : Walk.pixelAt 5859 1 5853 0 ∈ Walk.pixels 5859 1 :=
      Walk.pixelAt_mem_pixels (x := 5853) (y := 0) (by decide) (by decide)
    have hrow : Walk.selected 1 0 = 0 := Walk.selectsOwn_one 0 (by decide)
    have htexel : result.read 5853 0 =
        (Image.spot 5859 1 5852 0).read (Walk.selected 5859 5853) (Walk.selected 1 0) := hread _ hp
    rw [Walk.selected_drifted, hrow, Image.read_spot (by decide) (by decide), if_pos ⟨rfl, rfl⟩] at htexel
    exact ⟨result, by rw [hbindings], htexel⟩
  refine ⟨hboth .interpreter, hboth .compiler, ?_⟩
  rw [Image.read_spot (by decide) (by decide), if_neg (by decide)]

end PixelShader
