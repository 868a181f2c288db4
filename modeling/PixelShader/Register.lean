import PixelShader.Quad
/-!
# Registers, swizzles and write masks

A register is a kind and a number.  Any 32-bit number can be written down; which ones a program may use is a matter of
the bytecode (`Bytecode`) and of execution (`Support`).
-/
namespace PixelShader

/-! ## Registers -/

inductive RegisterKind where
  | temp
  | input
  | constant
  | texture
  | constantInt
  | colorOut
  | depthOut
  | samplerState
  | constantBool
  | loopCounter
  | halfTemp
  | misc
  | label
  | predicate
  deriving DecidableEq, Inhabited

namespace RegisterKind

def all : List RegisterKind :=
  [temp, input, constant, texture, constantInt, colorOut, depthOut, samplerState, constantBool, loopCounter, halfTemp,
    misc, label, predicate]

def name : RegisterKind → String
  | temp => "Temp"
  | input => "Input"
  | constant => "Constant"
  | texture => "Texture"
  | constantInt => "ConstantInt"
  | colorOut => "ColorOut"
  | depthOut => "DepthOut"
  | samplerState => "SamplerState"
  | constantBool => "ConstantBool"
  | loopCounter => "LoopCounter"
  | halfTemp => "HalfTemp"
  | misc => "Misc"
  | label => "Label"
  | predicate => "Predicate"

def mnemonic : RegisterKind → String
  | temp => "r"
  | input => "v"
  | constant => "c"
  | texture => "t"
  | constantInt => "i"
  | colorOut => "oC"
  | depthOut => "oDepth"
  | samplerState => "s"
  | constantBool => "b"
  | loopCounter => "aL"
  | halfTemp => "h"
  | misc => "misc"
  | label => "l"
  | predicate => "p"

/-- The kinds of which there is one register only, written without its number. -/
def isSingle : RegisterKind → Bool
  | depthOut | loopCounter => true
  | _ => false

end RegisterKind

structure Register where
  kind : RegisterKind
  number : UInt32
  deriving DecidableEq, Inhabited

abbrev registerSlots : Nat := 32

namespace Register

def text (r : Register) : String :=
  if r.kind.isSingle then r.kind.mnemonic else r.kind.mnemonic ++ toString r.number.toNat

def inRange (r : Register) : Bool := r.number.toNat < registerSlots

end Register

/-! ## Swizzles -/

structure Swizzle where
  x : Component
  y : Component
  z : Component
  w : Component
  deriving DecidableEq

namespace Swizzle

def identity : Swizzle := ⟨.x, .y, .z, .w⟩

instance : Inhabited Swizzle := ⟨identity⟩

/-- Four selectors of two bits, the one for `x` lowest. -/
def ofCode (code : Nat) : Swizzle :=
  ⟨.ofCode code, .ofCode (code / 4), .ofCode (code / 16), .ofCode (code / 64)⟩

def code (s : Swizzle) : Nat := s.x.code + 4 * s.y.code + 16 * s.z.code + 64 * s.w.code

def text (s : Swizzle) : String := String.ofList [s.x.letter, s.y.letter, s.z.letter, s.w.letter]

def components (s : Swizzle) : List Component := [s.x, s.y, s.z, s.w]

end Swizzle

def Quad.swizzle (q : Quad) (s : Swizzle) : Quad := q.shuffle s.x s.y s.z s.w

/-! ## Write masks -/

/-- Which components of its destination an instruction writes: a bit for each, that of `x` lowest.  The upper four bits
stand for no component. -/
structure WriteMask where
  bits : UInt8
  deriving DecidableEq

namespace WriteMask

def full : WriteMask := ⟨0x0f⟩
def empty : WriteMask := ⟨0x00⟩
def xy : WriteMask := ⟨0x03⟩

instance : Inhabited WriteMask := ⟨full⟩

def ofCode (code : Nat) : WriteMask := ⟨UInt8.ofNat (code % 16)⟩

def code (m : WriteMask) : Nat := m.bits.toNat

def ofFlags (x y z w : Bool) : WriteMask := ofCode (x.toNat + 2 * y.toNat + 4 * z.toNat + 8 * w.toNat)

def has (m : WriteMask) (c : Component) : Bool := m.code.testBit c.code

def isFull (m : WriteMask) : Bool := m == full

/-- Whether every bit of the mask is one of the other's. -/
def within (m other : WriteMask) : Bool := other.bits &&& m.bits == m.bits

def text (m : WriteMask) : String :=
  String.ofList (([.x, .y, .z, .w] : List Component).filter m.has |>.map Component.letter)

def lanes (m : WriteMask) : Quad := Quad.mask (m.has .x) (m.has .y) (m.has .z) (m.has .w)

end WriteMask

/-- A masked write: the components outside the mask keep the bits they had. -/
def Quad.write (previous value : Quad) (m : WriteMask) : Quad :=
  if m.isFull then value else Quad.blend m.lanes value previous

end PixelShader
