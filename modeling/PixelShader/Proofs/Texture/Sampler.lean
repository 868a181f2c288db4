import Mathlib
import PixelShader.Proofs.Texture.Color
/-!
# Sampling stays in the texture

A coordinate selects a column and a row, each the integer part of a product kept between 0 and a bound
(`toNat_texelIndex`).  Where the bound of the rows is the height, the texel that is read is one that the image stores.
Where it is the width, the same texel is read unless the row lies at or beyond the shorter side, and there either a row
too far up is read or one that is outside (`Image.sample_clamps_rows`).
-/
namespace PixelShader

/-- **The texel that a coordinate selects is an integer part, clamped.** -/
theorem toNat_texelIndex (coordinate : Lane) (size : UInt32) {bound : UInt32} (h : 1 ≤ bound) :
    ((texelIndex coordinate size bound).toNat : Int) =
      max 0 (min (coordinate * .ofUInt32 size).truncated (bound.toNat - 1)) := by
  have hpos : 1 ≤ bound.toNat := h
  have hlt := bound.toNat_lt
  have hmax : Nat.max bound.toNat 1 = bound.toNat := Nat.max_eq_left hpos
  rw [texelIndex, hmax, UInt32.toNat_ofNat_of_lt' (by rw [UInt32.size]; omega), ← Lane.toInt_eq_truncated]
  omega

namespace Image

variable {image : Image}

theorem sample_surface (hw : image.width ≠ 0) (hh : image.height ≠ 0) (clamp : RowClamp) (coordinate : Quad) :
    (Sampler.mk image.surface clamp).sample coordinate =
      (image.read (texelIndex coordinate.x image.width image.width)
        (texelIndex coordinate.y image.height (Sampler.mk image.surface clamp).rowBound)).unpack := by
  unfold Sampler.sample
  exact if_neg (not_or.2 ⟨hw, hh⟩)

theorem unpack_read_of_le {x y : UInt32} (h : image.height ≤ y) : (image.read x y).unpack = .zero := by
  rw [read_of_not_lt fun hin => absurd hin.2 (UInt32.not_lt.2 h), Texel.unpack_zero]

/-- **Sampling reads a texel of the image, and rows clamped to the width differ only where they must.**  The row that a
coordinate falls on is `i`, before it is clamped. -/
theorem sample_clamps_rows (hw : 1 ≤ image.width) (hh : 1 ≤ image.height) (coordinate : Quad) :
    let w : Int := image.width.toNat
    let h : Int := image.height.toNat
    let i := (coordinate.y * .ofUInt32 image.height).truncated
    let sampled := (Sampler.mk image.surface .height).sample coordinate
    let legacy := (Sampler.mk image.surface .legacyWidth).sample coordinate
    ∃ column row : UInt32, column < image.width ∧ row < image.height ∧
      (column.toNat : Int) = max 0 (min (coordinate.x * .ofUInt32 image.width).truncated (w - 1)) ∧
      (row.toNat : Int) = max 0 (min i (h - 1)) ∧
      (∃ t, image.texels[row.toNat * image.width.toNat + column.toNat]? = some t ∧ sampled = t.unpack) ∧
      (∃ row' : UInt32, (row'.toNat : Int) = max 0 (min i (w - 1)) ∧ legacy = (image.read column row').unpack) ∧
      (w = h ∨ i < min w h → legacy = sampled) ∧
      (min w h ≤ i → w < h → legacy = (image.read column (image.width - 1)).unpack) ∧
      (min w h ≤ i → h < w → legacy = .zero) := by
  intro w h i sampled legacy
  have hwpos : 1 ≤ image.width.toNat := hw
  have hhpos : 1 ≤ image.height.toNat := hh
  have hw0 : image.width ≠ 0 := fun h0 => by simp [h0] at hwpos
  have hh0 : image.height ≠ 0 := fun h0 => by simp [h0] at hhpos
  have hcolumn := toNat_texelIndex coordinate.x image.width hw
  have hrow := toNat_texelIndex coordinate.y image.height hh
  have hrow' := toNat_texelIndex coordinate.y image.height hw
  have hsampled : sampled = _ := sample_surface hw0 hh0 .height coordinate
  have hlegacy : legacy = _ := sample_surface hw0 hh0 .legacyWidth coordinate
  simp only [Sampler.rowBound, surface] at hsampled hlegacy
  -- from here on only the integers matter that the three indices are equal to
  generalize texelIndex coordinate.x image.width image.width = column at *
  generalize texelIndex coordinate.y image.height image.height = row at *
  generalize texelIndex coordinate.y image.height image.width = row' at *
  have hin : column < image.width ∧ row < image.height := by
    rw [UInt32.lt_iff_toNat_lt, UInt32.lt_iff_toNat_lt]
    omega
  refine ⟨column, row, hin.1, hin.2, hcolumn, hrow, ⟨_, read_of_lt hin, hsampled⟩, ⟨row', hrow', hlegacy⟩, ?_, ?_, ?_⟩
  · intro hsame
    have hrows : row' = row := UInt32.toNat_inj.1 (by omega)
    rw [hlegacy, hsampled, hrows]
  · intro hi hlt
    have hlast : row' = image.width - 1 := by
      apply UInt32.toNat_inj.1
      rw [UInt32.toNat_sub_of_le _ _ hw]
      show row'.toNat = image.width.toNat - 1
      omega
    rw [hlegacy, hlast]
  · intro hi hlt
    have hout : image.height ≤ row' := by
      rw [UInt32.le_iff_toNat_le]
      omega
    rw [hlegacy, unpack_read_of_le hout]

def wide : Image := ⟨4, 2, #[1, 2, 3, 4, 5, 6, 7, 8], rfl⟩

/-- No number in one direction and beyond all numbers in the other. -/
def astray : Quad := .pair ⟨0x7fc00000⟩ ⟨0x7f800000⟩

/-- The first column is read and the last row, which is outside if it is clamped to the width. -/
theorem sample_clamps_rows_wide :
    (Sampler.mk wide.surface .height).sample astray = Texel.unpack 5 ∧
      (Sampler.mk wide.surface .legacyWidth).sample astray = .zero := by
  have hx : (astray.x * .ofUInt32 wide.width).truncated = 0 := by
    rw [← Lane.toInt_eq_truncated]
    decide +kernel
  have hy : (astray.y * .ofUInt32 wide.height).truncated = 2 ^ 63 - 1 := by
    rw [← Lane.toInt_eq_truncated]
    decide +kernel
  obtain ⟨column, row, -, -, hcolumn, hrow, ⟨t, ht, hsampled⟩, -, -, -, hzero⟩ :=
    @sample_clamps_rows wide (by decide) (by decide) astray
  rw [hx] at hcolumn
  rw [hy] at hrow hzero
  have hcolumn0 : column.toNat = 0 := Int.ofNat_inj.1 hcolumn
  have hrow1 : row.toNat = 1 := Int.ofNat_inj.1 hrow
  rw [hcolumn0, hrow1] at ht
  refine ⟨?_, hzero (by decide) (by decide)⟩
  rw [hsampled, ← Option.some.inj ht]
  rfl

end Image
end PixelShader
