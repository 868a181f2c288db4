import PixelShader.Texture.Image
/-!
# Samplers

A sampler reads the texel nearest to a coordinate of a surface, on which both coordinates run from 0 to 1.  Outside of
that range the texel at the edge is read.
-/
namespace PixelShader

/-- A texture to read from: a texel for every position, of which those below width and height are its own. -/
structure Surface where
  width : UInt32
  height : UInt32
  texel : UInt32 → UInt32 → Texel

def Image.surface (i : Image) : Surface := ⟨i.width, i.height, i.read⟩

/-- The bound that sampled rows are clamped to.  The width is right for a square surface only; on another one it cuts
rows off or reaches rows outside. -/
inductive RowClamp where
  | height
  | legacyWidth
  deriving DecidableEq, Inhabited

def RowClamp.name : RowClamp → String
  | height => "Height"
  | legacyWidth => "LegacyWidth"

structure Sampler where
  surface : Surface
  rowClamp : RowClamp := .height

/-- The texel that a coordinate falls on along one side of `size` texels, kept below `bound` and at 0 at least. -/
def texelIndex (coordinate : Lane) (size bound : UInt32) : UInt32 :=
  let i := (coordinate * .ofUInt32 size).toInt
  UInt32.ofNat (min i.toNat (Nat.max bound.toNat 1 - 1))

namespace Sampler

def rowBound (s : Sampler) : UInt32 :=
  match s.rowClamp with
  | .height => s.surface.height
  | .legacyWidth => s.surface.width

/-- The colour at a coordinate; a surface without texels is transparent black. -/
def sample (s : Sampler) (coordinate : Quad) : Quad :=
  if s.surface.width = 0 ∨ s.surface.height = 0 then .zero
  else
    let x := texelIndex coordinate.x s.surface.width s.surface.width
    let y := texelIndex coordinate.y s.surface.height s.rowBound
    (s.surface.texel x y).unpack

def description (s : Sampler) : String :=
  "Sampler \x7b width: " ++ toString s.surface.width.toNat ++ ", height: " ++ toString s.surface.height.toNat
    ++ ", row_clamp: " ++ s.rowClamp.name ++ " \x7d"

end Sampler
end PixelShader
