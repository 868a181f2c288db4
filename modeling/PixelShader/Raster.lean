import PixelShader.Quad
/-!
# The walk over the pixels of an image

Pixels are visited column by column, each column from its first row to its last.  The texture coordinate of a pixel
starts at the centre of the first one and is carried along by repeated addition of one pixel's share, so it holds the
rounding of every step on the way.
-/
namespace PixelShader

structure Pixel where
  x : UInt32
  y : UInt32
  u : Lane
  v : Lane
  deriving DecidableEq, Inhabited

def Pixel.coordinate (p : Pixel) : Quad := .pair p.u p.v

/-- A walk and where it stands: `next` is the pixel to be visited. -/
structure Walk where
  width : UInt32
  height : UInt32
  next : Pixel

namespace Walk

/-- One pixel's share of a side of `n` pixels. -/
def share (n : UInt32) : Lane := .one / .ofUInt32 n

def centre (n : UInt32) : Lane := share n / .two

/-- The walk over an image.  Without rows it starts behind the last column. -/
def start (width height : UInt32) : Walk :=
  ⟨width, height, ⟨if height = 0 then width else 0, 0, centre width, centre height⟩⟩

def size (w : Walk) : Nat := w.width.toNat * w.height.toNat

/-- The pixel behind the next one: one row down, or the top of the following column. -/
def advance (w : Walk) : Walk :=
  let p := w.next
  if p.y + 1 < w.height then { w with next := { p with y := p.y + 1, v := p.v + share w.height } }
  else { w with next := { x := p.x + 1, y := 0, u := p.u + share w.width, v := centre w.height } }

def isDone (w : Walk) : Bool := w.width ≤ w.next.x

def skip : Nat → Walk → Walk
  | 0, w => w
  | n + 1, w => if w.isDone then w else skip n w.advance

def takeOnto (taken : Array Pixel) : Nat → Walk → Array Pixel
  | 0, _ => taken
  | n + 1, w => if w.isDone then taken else takeOnto (taken.push w.next) n w.advance

def take (n : Nat) (w : Walk) : List Pixel := (takeOnto #[] n w).toList

def pixels (width height : UInt32) : List Pixel := (start width height).take (start width height).size

end Walk
end PixelShader
