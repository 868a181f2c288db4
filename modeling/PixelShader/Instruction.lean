import PixelShader.Lane.Text
import PixelShader.Operand
/-!
# Instructions and programs

A program is a flat list of instructions.  There is no flow control; a predicate may stand before any instruction, is
part of its text, and is never evaluated.
-/
namespace PixelShader

/-! ## Operations -/

inductive UnaryOp where
  | rcp | frc | rsq | abs | exp | log
  deriving DecidableEq, Inhabited

inductive BinaryOp where
  | add | sub | mul | max | min | dp3 | dp4
  deriving DecidableEq, Inhabited

inductive TernaryOp where
  | mad | cmp | sincos | lrp | dp2add
  deriving DecidableEq, Inhabited

def UnaryOp.mnemonic : UnaryOp → String
  | .rcp => "rcp"
  | .frc => "frc"
  | .rsq => "rsq"
  | .abs => "abs"
  | .exp => "exp"
  | .log => "log"

def BinaryOp.mnemonic : BinaryOp → String
  | .add => "add"
  | .sub => "sub"
  | .mul => "mul"
  | .max => "max"
  | .min => "min"
  | .dp3 => "dp3"
  | .dp4 => "dp4"

def TernaryOp.mnemonic : TernaryOp → String
  | .mad => "mad"
  | .cmp => "cmp"
  | .sincos => "sincos"
  | .lrp => "lrp"
  | .dp2add => "dp2add"

inductive TextureKind where
  | unknown
  | flat
  | cube
  | volume
  deriving DecidableEq, Inhabited

namespace TextureKind

def name : TextureKind → String
  | unknown => "Unknown"
  | flat => "Text2d"
  | cube => "Cube"
  | volume => "Volume"

def mark : TextureKind → String
  | unknown => ""
  | flat => "_2d"
  | cube => "_cube"
  | volume => "_volume"

end TextureKind

inductive Operation where
  | nop
  | define (index : UInt32) (value : Quad)
  | declare (texture : TextureKind) (register : Destination)
  | texld (dest : Destination) (coord sampler : Source)
  | mov (dest : Destination) (a : Source)
  | unary (op : UnaryOp) (dest : Destination) (a : Source)
  | binary (op : BinaryOp) (dest : Destination) (a b : Source)
  | ternary (op : TernaryOp) (dest : Destination) (a b c : Source)
  deriving DecidableEq, Inhabited

namespace Operation

/-- The register an operation writes; declarations write none. -/
def dest? : Operation → Option Destination
  | nop | define .. | declare .. => none
  | texld d _ _ | mov d _ | unary _ d _ | binary _ d _ _ | ternary _ d _ _ _ => some d

def sources : Operation → List Source
  | nop | define .. | declare .. => []
  | texld _ coord sampler => [coord, sampler]
  | mov _ a | unary _ _ a => [a]
  | binary _ _ a b => [a, b]
  | ternary _ _ a b c => [a, b, c]

def line (mnemonic : String) (operands : List String) : String := mnemonic ++ " " ++ ", ".intercalate operands

/-- The operation in assembly text.  The texture kind of a declaration shows on a sampler only. -/
def text : Operation → String
  | nop => "nop"
  | define index v => line "def" (("c" ++ toString index.toNat) :: v.toList.map Lane.text)
  | declare texture d =>
    line ("dcl" ++ (if d.register.kind = .samplerState then texture.mark else "")) [d.text]
  | texld d coord sampler => line "texld" [d.text, coord.text, sampler.text]
  | mov d a => line "mov" [d.text, a.text]
  | unary op d a => line op.mnemonic [d.text, a.text]
  | binary op d a b => line op.mnemonic [d.text, a.text, b.text]
  | ternary op d a b c => line op.mnemonic [d.text, a.text, b.text, c.text]

end Operation

structure Instruction where
  operation : Operation
  predicate : Option Source := none
  deriving DecidableEq, Inhabited

def Instruction.text (i : Instruction) : String :=
  match i.predicate with
  | none => i.operation.text
  | some p => "(" ++ p.text ++ ") " ++ i.operation.text

/-! ## Programs -/

structure ShaderVersion where
  major : UInt8
  minor : UInt8
  deriving DecidableEq, Inhabited

namespace ShaderVersion

def model20 : ShaderVersion := ⟨2, 0⟩

def text (v : ShaderVersion) : String := "ps_" ++ toString v.major.toNat ++ "_" ++ toString v.minor.toNat

end ShaderVersion

structure Program where
  version : ShaderVersion := .model20
  instructions : List Instruction
  deriving DecidableEq, Inhabited

namespace Program

def ofInstructions (is : List Instruction) : Program := { instructions := is }

def disassembly (p : Program) : String :=
  p.instructions.foldl (fun text i => text ++ i.text ++ "\n") (p.version.text ++ "\n")

end Program
end PixelShader
