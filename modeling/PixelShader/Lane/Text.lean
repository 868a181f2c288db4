import PixelShader.Decimal.Shortest
import PixelShader.Lane.Integer
import PixelShader.Quad
/-!
# Lanes and quads as text

A lane is written with the fewest digits that read back as the same number, without an exponent and without a point
when it is whole.  Only a NaN has no sign, since its text names no number.
-/
namespace PixelShader

namespace Lane

/-- Every finite number is a multiple of the least positive one, `2 ^ (-149)`; this is how many of it there are. -/
def steps (a : Lane) : Nat := a.significand <<< (Nat.max a.exponent 1 - 1)

/-- The span of a finite number in quarters of `2 ^ (-149)`.  It reaches halfway to both neighbours, of which the lower
one is nearer at the foot of a binade, and has its ends when the significand is even. -/
def span (a : Lane) : Decimal.Span :=
  let gap := 1 <<< (Nat.max a.exponent 1 - 1)
  let down := if a.fraction = 0 ∧ 1 < a.exponent then gap else 2 * gap
  { unit := 1 <<< 151
    low := 4 * a.steps - down
    value := 4 * a.steps
    high := 4 * a.steps + 2 * gap
    closed := a.fraction % 2 == 0 }

/-- The decimal grids on which lanes lie: the largest lane is below `10 ^ 39`, and every one is a multiple of
`10 ^ (-149)`. -/
def grids : List Decimal.Grid := Decimal.grids 38 149

def decimal (a : Lane) : Decimal :=
  if a.steps = 0 then ⟨0, 0⟩ else a.span.shortest grids ⟨a.steps * Nat.pow 5 149, 149⟩

def magnitudeText (a : Lane) : String := if a.isInfinite then "inf" else a.decimal.text

def text (a : Lane) : String :=
  if a.isNaN then "NaN" else if a.isNegative then "-" ++ a.magnitudeText else a.magnitudeText

end Lane

def Quad.text (q : Quad) : String :=
  "(" ++ q.x.text ++ ", " ++ q.y.text ++ ", " ++ q.z.text ++ ", " ++ q.w.text ++ ")"

end PixelShader
