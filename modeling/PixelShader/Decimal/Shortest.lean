import PixelShader.Decimal
/-!
# The shortest decimal that reads back

Reading a decimal rounds it to the nearest representable number, so each such number stands for a *span* of reals
around it, and any decimal in the span reads back as the number.  The shortest one lies on the coarsest decimal grid
that has a point in the span; of the two neighbours of the number on that grid the nearer is taken, and the upper one
when both are equally near.

Everything is a natural number: a span counts in some unit fraction, and a decimal is compared with its ends by
multiplying crosswise.
-/
namespace PixelShader.Decimal

/-- The reals that round to a number: `value`, `low` and `high` count units of `1 / unit`.  The ends belong to the span
when it is closed. -/
structure Span where
  unit : Nat
  low : Nat
  value : Nat
  high : Nat
  closed : Bool

def Span.holds (s : Span) (digits scale : Nat) : Bool :=
  let here := digits * s.unit
  if s.closed then s.low * scale ≤ here && here ≤ s.high * scale else s.low * scale < here && here < s.high * scale

def Span.contains (s : Span) (d : Decimal) : Bool := s.holds d.digits (Nat.pow 10 d.places)

/-- A decimal grid: the multiples of `step / 10 ^ places`. -/
structure Grid where
  step : Nat
  places : Nat

def Grid.point (g : Grid) (n : Nat) : Decimal := ⟨n * g.step, g.places⟩

def grids (whole places : Nat) : List Grid :=
  (List.range (whole + 1)).map (fun i => ⟨Nat.pow 10 (whole - i), 0⟩) ++ (List.range places).map (fun i => ⟨1, i + 1⟩)

/-- The point of the grid that stands for the number, if a neighbour of the number on the grid is in its span. -/
def Span.on (s : Span) (g : Grid) : Option Decimal :=
  let scale := Nat.pow 10 g.places
  let scaled := s.value * scale
  let n := scaled / (s.unit * g.step)
  let down := g.point n
  let up := g.point (n + 1)
  if s.holds down.digits scale then
    if s.holds up.digits scale && (down.digits + up.digits) * s.unit ≤ 2 * scaled then some up else some down
  else if s.holds up.digits scale then some up
  else none

/-- The decimal of the coarsest grid that stands for the number, and `exact` when no grid has one. -/
def Span.shortest (s : Span) (gs : List Grid) (exact : Decimal) : Decimal :=
  (gs.findSome? s.on).getD exact

end PixelShader.Decimal
