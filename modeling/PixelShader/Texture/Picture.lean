import PixelShader.Texture.Image
/-!
# Pictures

A picture is what a file shows: four bytes for every pixel, row by row.  The texel of a pixel is the number that its
bytes make, red being the least significant.
-/
namespace PixelShader

structure Rgba where
  red : UInt8
  green : UInt8
  blue : UInt8
  alpha : UInt8
  deriving DecidableEq, Inhabited

namespace Texel

def ofRgba (p : Rgba) : Texel :=
  p.red.toUInt32 ||| (p.green.toUInt32 <<< 8) ||| (p.blue.toUInt32 <<< 16) ||| (p.alpha.toUInt32 <<< 24)

def toRgba (t : Texel) : Rgba := ⟨t.toUInt8, (t >>> 8).toUInt8, (t >>> 16).toUInt8, (t >>> 24).toUInt8⟩

end Texel

structure Picture where
  width : UInt32
  height : UInt32
  pixels : Array Rgba
  size_eq : pixels.size = width.toNat * height.toNat

namespace Picture

def ofPixels? (width height : UInt32) (pixels : Array Rgba) : Option Picture :=
  if h : pixels.size = width.toNat * height.toNat then some ⟨width, height, pixels, h⟩ else none

def ofImage (i : Image) : Picture where
  width := i.width
  height := i.height
  pixels := Array.ofFn fun n : Fin (i.width.toNat * i.height.toNat) =>
    (i.read (UInt32.ofNat (n % i.width.toNat)) (UInt32.ofNat (n / i.width.toNat))).toRgba
  size_eq := Array.size_ofFn

end Picture

def Image.ofPicture (p : Picture) : Image where
  width := p.width
  height := p.height
  texels := p.pixels.map Texel.ofRgba
  size_eq := by rw [Array.size_map, p.size_eq]

end PixelShader
