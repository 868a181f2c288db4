import Mathlib
import PixelShader.Proofs.Atomicity
import PixelShader.Proofs.Raster
import PixelShader.Proofs.Texture.Image
/-!
# A rendering as a map over pixels

A rendering that ends well has shaded every pixel by itself.  `Backend.color` says what the colour is made of: the
program, the samplers it samples, the bound constants and the pixel's coordinate.  Nothing else can reach it, and
`Bindings.render_eq_painted` says that nothing else did.
-/
namespace PixelShader

/-! ## The colour of one pixel -/

/-- The colour that a program gives at a coordinate, from fresh registers.  An interpreter makes a definition when it
comes to it, a kernel makes all of them first. -/
def Backend.color (backend : Backend) (p : Program) (find : Slot → Option Sampler) (constants : ConstantTable)
    (coordinate : Quad) : Quad :=
  match backend with
  | .interpreter => effectAll find p.instructions (startValues constants coordinate) .color
  | .compiler => computeAll find p.instructions (defineAll p.instructions (startValues constants coordinate)) .color

def Bindings.sampled (b : Bindings) (p : Program) (s : Slot) : Option Sampler :=
  if (samplerSlots p.instructions).contains s then b.samplers.get s else none

theorem Bindings.sampled_of_mem {b : Bindings} {p : Program} {i : Instruction} {s : Slot} (hi : i ∈ p.instructions)
    (hs : s ∈ i.operation.samplerSlot?) : b.samplers.get s = b.sampled p s := by
  rw [sampled, if_pos (List.contains_iff_mem.2 (mem_samplerSlots hi hs))]

/-! ## All pixels -/

theorem Bindings.painted_of_supply {b : Bindings} {p : Program} {r : Rendering} {color : Pixel → Quad} {image : Image}
    (ho : b.output = some image) (hr : r.outcome = .ok ())
    (h : match b.supply p with
      | .error fault => r = .refused b (.binding fault)
      | .ok image => r = b.painted image color) : r = b.painted image color := by
  cases hs : b.supply p with
  | error fault =>
    rw [hs] at h
    rw [h] at hr
    cases hr
  | ok image' =>
    simp only [hs] at h
    have hi : image' = image := by
      unfold supply at hs
      rw [ho] at hs
      simp only at hs
      split at hs
      · cases hs
      · exact (Except.ok.inj hs).symm
    rw [h, hi]

/-- **A rendering that ends well has painted every pixel with the colour of its coordinate.** -/
theorem Bindings.render_eq_painted {b : Bindings} {backend : Backend} {p : Program} {image : Image}
    (ho : b.output = some image) (h : (b.render backend p).outcome = .ok ()) :
    b.render backend p = b.painted image fun pixel =>
      backend.color p (b.sampled p) b.constants pixel.coordinate := by
  cases backend with
  | interpreter =>
    cases hi : Interpreter.ofProgram p with
    | error fault => simp [render, hi, Rendering.refused] at h
    | ok i =>
      simp only [render, hi] at h ⊢
      rw [painted_of_supply ho h (Interpreter.run_spec hi b)]
      congr 1
      funext pixel
      exact congrFun (effectAll_congr_samplers _ _ fun j hj s hs => sampled_of_mem hj hs) .color
  | compiler =>
    cases hk : Kernel.compile p with
    | error fault => simp [render, hk, Rendering.refused] at h
    | ok k =>
      simp only [render, hk] at h ⊢
      rw [painted_of_supply ho h (Kernel.run_spec hk b)]
      congr 1
      funext pixel
      exact congrFun (computeAll_congr_samplers _ _ fun j hj s hs => sampled_of_mem hj hs) .color

section
variable {b : Bindings} {image : Image} {color : Pixel → Quad}

theorem Bindings.positions_painted : (b.painted image color).paints.toList.map (fun q => (q.x, q.y)) =
    (Walk.pixels image.width image.height).map fun p => (p.x, p.y) := by
  simp [painted, Function.comp_def]

theorem Bindings.count_positions_painted (x y : UInt32) :
    ((b.painted image color).paints.toList.map fun q => (q.x, q.y)).count (x, y) =
      if x < image.width ∧ y < image.height then 1 else 0 := by
  rw [positions_painted]
  split
  · rename_i hin
    refine List.count_eq_one_of_mem (Walk.nodup_positions _ _)
      (List.mem_map.2 ⟨_, Walk.pixelAt_mem_pixels hin.1 hin.2, ?_⟩)
    simp [Walk.pixelAt]
  · rename_i hout
    refine List.count_eq_zero.2 fun hmem => hout ?_
    obtain ⟨p, hp, he⟩ := List.mem_map.1 hmem
    cases he
    exact ⟨(Walk.mem_pixels.1 hp).1, (Walk.mem_pixels.1 hp).2.1⟩

theorem Bindings.mem_paints_painted {q : Paint} : q ∈ (b.painted image color).paints ↔
    q.x < image.width ∧ q.y < image.height ∧
      q.color = color (Walk.pixelAt image.width image.height q.x.toNat q.y.toNat) := by
  obtain ⟨x, y, c⟩ := q
  simp only [painted, List.mem_toArray, List.mem_map, Paint.mk.injEq]
  constructor
  · rintro ⟨p, hp, rfl, rfl, rfl⟩
    obtain ⟨hx, hy, he⟩ := Walk.mem_pixels.1 hp
    exact ⟨hx, hy, by rw [← he]⟩
  · rintro ⟨hx, hy, rfl⟩
    exact ⟨_, Walk.pixelAt_mem_pixels hx hy, by simp [Walk.pixelAt]⟩

theorem Bindings.output_painted : ∃ result, (b.painted image color).bindings = { b with output := some result } ∧
    result.width = image.width ∧ result.height = image.height ∧
    ∀ x y, x < image.width → y < image.height →
      result.read x y = .pack (color (Walk.pixelAt image.width image.height x.toNat y.toNat)) := by
  refine ⟨(b.painted image color).paints.toList.foldl Image.paint image, ?_, Image.width_foldl_paint _ _,
    Image.height_foldl_paint _ _, fun x y hx hy => ?_⟩
  · rw [Array.foldl_toList]
    rfl
  · have hnd : ((b.painted image color).paints.toList.map fun q => (q.x, q.y)).Nodup := by
      rw [positions_painted]
      exact Walk.nodup_positions _ _
    have hmem : Paint.mk x y (color (Walk.pixelAt image.width image.height x.toNat y.toNat)) ∈
        (b.painted image color).paints.toList := Array.mem_toList_iff.2 (mem_paints_painted.2 ⟨hx, hy, rfl⟩)
    exact Image.read_foldl_paint _ image hnd hmem hx hy

end

/-- **A rendering that ends well is a map over pixels.**  Every position of the output is painted once and no other is,
with the colour that the program gives by itself at the coordinate of that position.  That is all that is left in the
output, whatever it held before, and nothing else is changed. -/
theorem render_ok_pixelwise {b : Bindings} {backend : Backend} {p : Program} {image : Image}
    (ho : b.output = some image) (h : (b.render backend p).outcome = .ok ()) :
    (∀ x y, ((b.render backend p).paints.toList.map fun q => (q.x, q.y)).count (x, y) =
      if x < image.width ∧ y < image.height then 1 else 0) ∧
    (∀ q ∈ (b.render backend p).paints, q.color = backend.color p (b.sampled p) b.constants
      ⟨Walk.along image.width q.x.toNat, Walk.along image.height q.y.toNat, .zero, .zero⟩) ∧
    ∃ result, (b.render backend p).bindings = { b with output := some result } ∧
      result.width = image.width ∧ result.height = image.height ∧
      ∀ x y, x < image.width → y < image.height → result.read x y = .pack (backend.color p (b.sampled p) b.constants
        ⟨Walk.along image.width x.toNat, Walk.along image.height y.toNat, .zero, .zero⟩) := by
  rw [Bindings.render_eq_painted ho h]
  exact ⟨Bindings.count_positions_painted, fun q hq => (Bindings.mem_paints_painted.1 hq).2.2, Bindings.output_painted⟩

/-- `tint` paints the last position of a 3 by 2 output once and none below it. -/
theorem render_tint_pixelwise :
    (tintBindings.render .compiler tint).outcome = .ok () ∧
    ((tintBindings.render .compiler tint).paints.toList.map fun q => (q.x, q.y)).count (2, 1) = 1 ∧
    ((tintBindings.render .compiler tint).paints.toList.map fun q => (q.x, q.y)).count (1, 2) = 0 ∧
    ∃ result, (tintBindings.render .compiler tint).bindings = { tintBindings with output := some result } ∧
      result.width = 3 ∧ result.height = 2 := by
  have hr : (tintBindings.render .compiler tint).outcome = .ok () := rfl
  obtain ⟨hcount, -, result, hb, hw, hh, -⟩ := render_ok_pixelwise (b := tintBindings) rfl hr
  exact ⟨hr, hcount 2 1, hcount 1 2, result, hb, hw, hh⟩

end PixelShader
