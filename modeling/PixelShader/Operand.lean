import PixelShader.Register
/-!
# Operands: a register as an instruction names it

A source reads a register through a swizzle and a modifier; a destination writes the components of a mask.  The
precision and centroid hints of a destination are part of the program text and have no effect on what is computed.
-/
namespace PixelShader

inductive Modifier where
  | none
  | negate
  | bias
  | biasAndNegate
  | sign
  | signAndNegate
  | complement
  | double
  | doubleAndNegate
  | divideByZ
  | divideByW
  | abs
  | absAndNegate
  | not
  deriving DecidableEq, Inhabited

namespace Modifier

def all : List Modifier :=
  [none, negate, bias, biasAndNegate, sign, signAndNegate, complement, double, doubleAndNegate, divideByZ, divideByW,
    abs, absAndNegate, not]

def name : Modifier → String
  | none => "None"
  | negate => "Negate"
  | bias => "Bias"
  | biasAndNegate => "BiasAndNegate"
  | sign => "Sign"
  | signAndNegate => "SignAndNegate"
  | complement => "Complement"
  | double => "Double"
  | doubleAndNegate => "DoubleAndNegate"
  | divideByZ => "DivideByZ"
  | divideByW => "DivideByW"
  | abs => "Abs"
  | absAndNegate => "AbsAndNegate"
  | not => "Not"

/-- The marks before and after the register in assembly text. -/
def marks : Modifier → String × String
  | none => ("", "")
  | negate => ("-", "")
  | bias => ("", "_bias")
  | biasAndNegate => ("-", "_bias")
  | sign => ("", "_bx2")
  | signAndNegate => ("-", "_bx2")
  | complement => ("1-", "")
  | double => ("", "_x2")
  | doubleAndNegate => ("-", "_x2")
  | divideByZ => ("", "_dz")
  | divideByW => ("", "_dw")
  | abs => ("", "_abs")
  | absAndNegate => ("-", "_abs")
  | not => ("!", "")

end Modifier

structure Source where
  register : Register
  swizzle : Swizzle := .identity
  modifier : Modifier := .none
  deriving DecidableEq, Inhabited

def Source.text (s : Source) : String :=
  let (before, after) := s.modifier.marks
  before ++ s.register.text ++ after ++ (if s.swizzle = .identity then "" else "." ++ s.swizzle.text)

structure Destination where
  register : Register
  mask : WriteMask := .full
  partialPrecision : Bool := false
  centroid : Bool := false
  deriving DecidableEq, Inhabited

def Destination.text (d : Destination) : String :=
  d.register.text ++ (if d.mask.isFull then "" else "." ++ d.mask.text) ++ (if d.partialPrecision then "_pp" else "")
    ++ (if d.centroid then "_centroid" else "")

end PixelShader
