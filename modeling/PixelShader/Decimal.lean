/-!
# Decimals in positional notation

A decimal is a natural number over a power of ten.  There is no exponent: a large number is written with its zeros,
and a small one with the zeros after its point.
-/
namespace PixelShader

/-- The number `digits / 10 ^ places`. -/
structure Decimal where
  digits : Nat
  places : Nat
  deriving DecidableEq, Inhabited

namespace Decimal

def figures (d : Decimal) : List Char :=
  let cs := Nat.toDigits 10 d.digits
  List.replicate (d.places + 1 - cs.length) '0' ++ cs

/-- The whole part, and after a point as many figures as there are places. -/
def text (d : Decimal) : String :=
  let cs := d.figures
  if d.places = 0 then String.ofList cs
  else
    let whole := cs.length - d.places
    String.ofList (cs.take whole ++ '.' :: cs.drop whole)

end Decimal
end PixelShader
