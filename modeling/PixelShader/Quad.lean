import PixelShader.Lane
/-!
# Quads: the four lanes of a register

Every register, constant, colour and texture coordinate is a quad.  A partial write is a *blend*: a mask quad, each
lane all ones or all zeros, picks between two quads bit by bit, so that a lane which is kept keeps its bits.
-/
namespace PixelShader

inductive Component where
  | x | y | z | w
  deriving DecidableEq, Inhabited

namespace Component

def ofCode (code : Nat) : Component :=
  match code % 4 with
  | 0 => x
  | 1 => y
  | 2 => z
  | _ => w

def code : Component → Nat
  | x => 0
  | y => 1
  | z => 2
  | w => 3

def letter : Component → Char
  | x => 'x'
  | y => 'y'
  | z => 'z'
  | w => 'w'

end Component

/-- Four lanes; equality is equality of all bits. -/
structure Quad where
  x : Lane
  y : Lane
  z : Lane
  w : Lane
  deriving DecidableEq, Inhabited

namespace Quad

def splat (a : Lane) : Quad := ⟨a, a, a, a⟩

/-- A coordinate pair: the other two lanes are zero. -/
def pair (a b : Lane) : Quad := ⟨a, b, .zero, .zero⟩

def zero : Quad := splat .zero
def one : Quad := splat .one

def get (q : Quad) : Component → Lane
  | .x => q.x
  | .y => q.y
  | .z => q.z
  | .w => q.w

def toList (q : Quad) : List Lane := [q.x, q.y, q.z, q.w]

def map (f : Lane → Lane) (q : Quad) : Quad := ⟨f q.x, f q.y, f q.z, f q.w⟩

def zipWith (f : Lane → Lane → Lane) (p q : Quad) : Quad := ⟨f p.x q.x, f p.y q.y, f p.z q.z, f p.w q.w⟩

def shuffle (q : Quad) (a b c d : Component) : Quad := ⟨q.get a, q.get b, q.get c, q.get d⟩

instance : Add Quad := ⟨zipWith (· + ·)⟩
instance : Sub Quad := ⟨zipWith (· - ·)⟩
instance : Mul Quad := ⟨zipWith (· * ·)⟩
instance : Div Quad := ⟨zipWith (· / ·)⟩
instance : Neg Quad := ⟨map (- ·)⟩

def min (p q : Quad) : Quad := zipWith Lane.min p q
def max (p q : Quad) : Quad := zipWith Lane.max p q
def abs (q : Quad) : Quad := map Lane.abs q

def equal (p q : Quad) : Bool := p.x.equal q.x && p.y.equal q.y && p.z.equal q.z && p.w.equal q.w

/-! ## Bits and masks -/

def zipBits (f : UInt32 → UInt32 → UInt32) (p q : Quad) : Quad := zipWith (fun a b => ⟨f a.bits b.bits⟩) p q

def and (p q : Quad) : Quad := zipBits (· &&& ·) p q
def or (p q : Quad) : Quad := zipBits (· ||| ·) p q
def andNot (p q : Quad) : Quad := zipBits (~~~ · &&& ·) p q

/-- A lane of a mask: all ones to select, all zeros to leave. -/
def selector (on : Bool) : Lane := ⟨if on then 0xffffffff else 0⟩

def mask (x y z w : Bool) : Quad := ⟨selector x, selector y, selector z, selector w⟩

def below (p q : Quad) : Quad := zipWith (fun a b => selector (a.lt b)) p q

/-- The bits of `on` where the mask has ones and those of `off` where it has zeros. -/
def blend (mask on off : Quad) : Quad := (mask.and on).or (mask.andNot off)

end Quad
end PixelShader
