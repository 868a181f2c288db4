import PixelShader.Texture.Color
/-!
# Images

An image stores its texels row by row.  It has exactly as many as its width and height ask for, reads outside of it are
0 and writes outside of it are dropped.
-/
namespace PixelShader

structure Image where
  width : UInt32
  height : UInt32
  texels : Array Texel
  size_eq : texels.size = width.toNat * height.toNat

namespace Image

def filled (width height : UInt32) (t : Texel) : Image :=
  ⟨width, height, .replicate (width.toNat * height.toNat) t, by simp⟩

def blank (width height : UInt32) : Image := filled width height 0

def ofTexels? (width height : UInt32) (texels : Array Texel) : Option Image :=
  if h : texels.size = width.toNat * height.toNat then some ⟨width, height, texels, h⟩ else none

theorem index_lt (i : Image) {x y : UInt32} (h : x < i.width ∧ y < i.height) :
    y.toNat * i.width.toNat + x.toNat < i.texels.size := by
  rw [i.size_eq]
  have hx : x.toNat < i.width.toNat := h.1
  have hy : y.toNat + 1 ≤ i.height.toNat := h.2
  calc y.toNat * i.width.toNat + x.toNat < y.toNat * i.width.toNat + i.width.toNat := by omega
    _ = i.width.toNat * (y.toNat + 1) := by rw [Nat.mul_add, Nat.mul_comm]; omega
    _ ≤ i.width.toNat * i.height.toNat := Nat.mul_le_mul_left _ hy

/-- Where the texel at a position is stored, if the position is in the image. -/
def index? (i : Image) (x y : UInt32) : Option (Fin i.texels.size) :=
  if h : x < i.width ∧ y < i.height then some ⟨y.toNat * i.width.toNat + x.toNat, i.index_lt h⟩ else none

def read (i : Image) (x y : UInt32) : Texel :=
  match i.index? x y with
  | some n => i.texels[n]
  | none => 0

def write (i : Image) (x y : UInt32) (t : Texel) : Image :=
  match i.index? x y with
  | some n => { i with texels := i.texels.set n t, size_eq := by rw [Array.size_set]; exact i.size_eq }
  | none => i

def readColor (i : Image) (x y : UInt32) : Quad := (i.read x y).unpack

def writeColor (i : Image) (x y : UInt32) (color : Quad) : Image := i.write x y (.pack color)

end Image
end PixelShader
