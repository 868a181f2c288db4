import PixelShader.Lane
/-!
# Lanes and whole numbers

A finite lane is exactly `significand * 2 ^ scale`, so its integer part and its rounding are shifts of a natural
number.  Conversions saturate: an infinity counts as larger than every integer, and a NaN as 0.
-/
namespace PixelShader.Lane

/-- The significand with its leading bit, which a zero and a subnormal number lack. -/
def significand (a : Lane) : Nat := if a.exponent = 0 then a.fraction else 0x800000 + a.fraction

def scale (a : Lane) : Int := (Nat.max a.exponent 1 : Int) - 150

def wholePart (a : Lane) : Nat :=
  if 150 ≤ a.exponent then a.significand <<< (a.exponent - 150)
  else a.significand >>> (150 - Nat.max a.exponent 1)

/-- The integer nearest to the magnitude, a half going away from zero. -/
def roundedPart (a : Lane) : Nat :=
  if 150 ≤ a.exponent then a.significand <<< (a.exponent - 150)
  else (a.significand + (1 <<< (149 - Nat.max a.exponent 1))) >>> (150 - Nat.max a.exponent 1)

/-- The number cut to a signed integer of 64 bits, at the nearest end of their range when it lies outside. -/
def toInt (a : Lane) : Int :=
  if a.isNaN then 0
  else if a.isNegative then -(Nat.min a.wholePart 0x8000000000000000 : Int)
  else (Nat.min a.wholePart 0x7fffffffffffffff : Int)

def toNatRounded (a : Lane) : Nat :=
  if a.isNaN || a.isNegative then 0 else a.roundedPart

end PixelShader.Lane
