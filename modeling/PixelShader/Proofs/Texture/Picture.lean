import Mathlib
import PixelShader.Proofs.Bytecode.Grammar
import PixelShader.Proofs.Texture.Image
import PixelShader.Texture.Picture
/-!
# Images that show a picture

An image shows a picture if its texels, byte by byte from the least significant one on, are the pixels
(`Image.Shows`).  A picture has one such image (`Image.Shows.unique`), which is the one that is made of it
(`Image.shows_ofPicture`), and every image shows the picture that is made of it (`Image.shows_ofImage`).
-/
namespace PixelShader

def Rgba.bytes (c : Rgba) : List UInt8 := [c.red, c.green, c.blue, c.alpha]

def Picture.pixel (p : Picture) (x y : Nat) : Rgba := p.pixels.getD (y * p.width.toNat + x) default

namespace Image

open Bytecode (bytesOfWord)

/-- The image has the picture's size, and the bytes of its texels, least significant first, are those of the pixels. -/
structure Shows (i : Image) (p : Picture) : Prop where
  width : i.width = p.width
  height : i.height = p.height
  bytes : ∀ x y, x < i.width → y < i.height → bytesOfWord (i.read x y) = (p.pixel x.toNat y.toNat).bytes

theorem shows_ofPicture (p : Picture) : (ofPicture p).Shows p where
  width := rfl
  height := rfl
  bytes x y hx hy := by
    have hread : (p.pixels.map Texel.ofRgba)[y.toNat * p.width.toNat + x.toNat]? = some ((ofPicture p).read x y) :=
      read_of_lt ⟨hx, hy⟩
    rw [Array.getElem?_map, Option.map_eq_some_iff] at hread
    obtain ⟨c, hc, hread⟩ := hread
    have hpixel : p.pixel x.toNat y.toNat = c := by
      rw [Picture.pixel, Array.getD_eq_getD_getElem?, hc, Option.getD_some]
    rw [← hread, hpixel]
    exact Bytecode.bytesOfWord_word _ _ _ _

theorem shows_ofImage (i : Image) : i.Shows (.ofImage i) where
  width := rfl
  height := rfl
  bytes x y hx hy := by
    have hw : x.toNat < i.width.toNat := hx
    have hlt := i.index_lt ⟨hx, hy⟩
    rw [i.size_eq] at hlt
    have hdiv : (y.toNat * i.width.toNat + x.toNat) / i.width.toNat = y.toNat := by
      rw [Nat.mul_comm, Nat.mul_add_div (by omega), Nat.div_eq_of_lt hw, Nat.add_zero]
    have hmod : (y.toNat * i.width.toNat + x.toNat) % i.width.toNat = x.toNat := by
      rw [Nat.mul_comm, Nat.mul_add_mod, Nat.mod_eq_of_lt hw]
    have hpixel : (Picture.ofImage i).pixel x.toNat y.toNat = (i.read x y).toRgba := by
      simp [Picture.pixel, Picture.ofImage, hlt, hdiv, hmod]
    rw [hpixel]
    rfl

theorem Shows.unique {i j : Image} {p : Picture} (hi : i.Shows p) (hj : j.Shows p) : i = j := by
  refine ext_read (hi.width.trans hj.width.symm) (hi.height.trans hj.height.symm) fun x y hx hy => ?_
  have hbytes : bytesOfWord (i.read x y) = bytesOfWord (j.read x y) := by
    rw [hi.bytes x y hx hy, hj.bytes x y (by rwa [hj.width, ← hi.width]) (by rwa [hj.height, ← hi.height])]
  simp only [bytesOfWord, List.cons.injEq, and_true] at hbytes
  rw [← Bytecode.word_bytes (i.read x y), ← Bytecode.word_bytes (j.read x y), hbytes.1, hbytes.2.1, hbytes.2.2.1,
    hbytes.2.2.2]

end Image
end PixelShader
