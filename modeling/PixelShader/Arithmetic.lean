import PixelShader.Instruction
/-!
# What the operations compute

Sums run from left to right.  A scalar result is spread over all four lanes.
-/
namespace PixelShader

def UnaryOp.apply (op : UnaryOp) (a : Quad) : Quad :=
  match op with
  | .rcp => Quad.one / a
  | .frc => a.map fun v => v - v.trunc
  | .rsq => .splat (.one / a.x.abs.sqrt)
  | .abs => a.abs
  | .exp => .splat a.x.exp2
  | .log => .splat a.x.abs.log2

def Quad.sum3 (q : Quad) : Lane := q.x + q.y + q.z

def BinaryOp.apply (op : BinaryOp) (a b : Quad) : Quad :=
  match op with
  | .add => a + b
  | .sub => a - b
  | .mul => a * b
  | .max => a.max b
  | .min => a.min b
  | .dp3 => .splat (a * b).sum3
  | .dp4 => .splat ((a * b).sum3 + (a * b).w)

/-- `cmp` takes each lane of `c` where `a` is below zero and that of `b` elsewhere; `sincos` puts the cosine first. -/
def TernaryOp.apply (op : TernaryOp) (a b c : Quad) : Quad :=
  match op with
  | .mad => a * b + c
  | .cmp => Quad.blend (a.below .zero) c b
  | .sincos => .pair a.x.cos a.x.sin
  | .lrp => a * b + (Quad.one - a) * c
  | .dp2add => .splat (a.x * b.x + a.y * b.y + c.x)

end PixelShader
