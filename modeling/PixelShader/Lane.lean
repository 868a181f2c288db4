/-!
# Lanes: one 32-bit floating point number, held as its bits

A register has four lanes.  A lane is the *bit pattern* of a 32-bit floating point number and not the number: moving,
masking and negating a lane keep every bit of it, the payload of a NaN and the sign of a zero included, while
arithmetic reads the number, computes it in 32 bits with one rounding to the nearest (ties to even), and writes the
pattern of the result.  So `=` on lanes is equality of bits, and `Lane.equal` is equality of numbers.
-/
namespace PixelShader

/-- A lane: the bits of a 32-bit floating point number, sign in bit 31, exponent in bits 23 to 30. -/
structure Lane where
  bits : UInt32
  deriving DecidableEq, Inhabited

namespace Lane

def zero : Lane := ⟨0⟩
def one : Lane := ⟨0x3f800000⟩
def two : Lane := ⟨0x40000000⟩
def channelMax : Lane := ⟨0x437f0000⟩

/-! ## Arithmetic

Each operation is correctly rounded on its own; nothing is fused. -/

def value (a : Lane) : Float32 := Float32.ofBits a.bits

def ofValue (f : Float32) : Lane := ⟨f.toBits⟩

def ofUInt32 (n : UInt32) : Lane := ofValue n.toFloat32

instance : Add Lane := ⟨fun a b => ofValue (a.value + b.value)⟩
instance : Sub Lane := ⟨fun a b => ofValue (a.value - b.value)⟩
instance : Mul Lane := ⟨fun a b => ofValue (a.value * b.value)⟩
instance : Div Lane := ⟨fun a b => ofValue (a.value / b.value)⟩

def sqrt (a : Lane) : Lane := ofValue a.value.sqrt
def exp2 (a : Lane) : Lane := ofValue a.value.exp2
def log2 (a : Lane) : Lane := ofValue a.value.log2
def sin (a : Lane) : Lane := ofValue a.value.sin
def cos (a : Lane) : Lane := ofValue a.value.cos

/-! ## Order

Every comparison with a NaN is false, and the two zeros are equal. -/

def lt (a b : Lane) : Bool := a.value < b.value

def equal (a b : Lane) : Bool := a.value == b.value

/-! ## The fields of the pattern -/

def isNegative (a : Lane) : Bool := a.bits &&& 0x80000000 != 0

/-- The exponent field: 0 for a zero or a subnormal number, 255 for an infinity or a NaN. -/
def exponent (a : Lane) : Nat := ((a.bits >>> 23) &&& 0xff).toNat

def fraction (a : Lane) : Nat := (a.bits &&& 0x7fffff).toNat

def isNaN (a : Lane) : Bool := a.exponent == 255 && a.fraction != 0

def isInfinite (a : Lane) : Bool := a.exponent == 255 && a.fraction == 0

instance : Neg Lane := ⟨fun a => ⟨a.bits ^^^ 0x80000000⟩⟩

def abs (a : Lane) : Lane := ⟨a.bits &&& 0x7fffffff⟩

/-- The number without its fraction: towards zero, and the sign is kept also when nothing else is. -/
def trunc (a : Lane) : Lane :=
  if a.exponent < 127 then ⟨a.bits &&& 0x80000000⟩
  else if 150 ≤ a.exponent then a
  else ⟨a.bits &&& ~~~((1 <<< UInt32.ofNat (150 - a.exponent)) - 1)⟩

/-! ## Least and greatest

A NaN gives way to a number; between equal numbers the first one stays. -/

def min (a b : Lane) : Lane := if a.isNaN then b else if b.lt a then b else a

def max (a b : Lane) : Lane := if a.isNaN then b else if a.lt b then b else a

/-- The nearest lane between two bounds.  A NaN lies beyond neither and stays. -/
def clamp (a low high : Lane) : Lane :=
  let raised := if a.lt low then low else a
  if high.lt raised then high else raised

end Lane
end PixelShader
