import PixelShader.Bytecode.Decode
/-!
# Assembling bytecode

The other direction of `decode`.  An instruction fixes some fields of each of its tokens, and the bits outside them are
spare: a `Pattern` lists the fields, a token matches it whatever its spare bits are, and `Pattern.token` is the token
whose spare bits are clear.
-/
namespace PixelShader.Bytecode

/-! ## Patterns -/

/-- A value in the field of `width` bits from bit `low` on. -/
structure FixedField where
  low : Nat
  width : Nat
  value : Nat
  deriving DecidableEq, Inhabited

abbrev Pattern := List FixedField

namespace Pattern

def Matches (p : Pattern) (token : UInt32) : Prop := ∀ f ∈ p, field token f.low f.width = f.value

instance (p : Pattern) (token : UInt32) : Decidable (p.Matches token) := by unfold Matches; infer_instance

def token (p : Pattern) : UInt32 := UInt32.ofNat (p.foldr (fun f rest => (f.value <<< f.low) + rest) 0)

end Pattern

/-! ## Codes -/

def codeOfKind : RegisterKind → Nat
  | .temp => 0
  | .input => 1
  | .constant => 2
  | .texture => 3
  | .constantInt => 7
  | .colorOut => 8
  | .depthOut => 9
  | .samplerState => 10
  | .constantBool => 14
  | .loopCounter => 15
  | .halfTemp => 16
  | .misc => 17
  | .label => 18
  | .predicate => 19

def codeOfModifier : Modifier → Nat
  | .none => 0
  | .negate => 1
  | .bias => 2
  | .biasAndNegate => 3
  | .sign => 4
  | .signAndNegate => 5
  | .complement => 6
  | .double => 7
  | .doubleAndNegate => 8
  | .divideByZ => 9
  | .divideByW => 10
  | .abs => 11
  | .absAndNegate => 12
  | .not => 13

def codeOfTexture : TextureKind → Nat
  | .unknown => 0
  | .flat => 2
  | .cube => 3
  | .volume => 4

/-- The opcode of a shape; of the two of `dp2add` the latter. -/
def Shape.opcode : Shape → Nat
  | nop => 0x00
  | mov => 0x01
  | unary .rcp => 0x06
  | unary .rsq => 0x07
  | unary .exp => 0x0e
  | unary .log => 0x0f
  | unary .frc => 0x13
  | unary .abs => 0x23
  | binary .add => 0x02
  | binary .sub => 0x03
  | binary .mul => 0x05
  | binary .dp3 => 0x08
  | binary .dp4 => 0x09
  | binary .min => 0x0a
  | binary .max => 0x0b
  | ternary .mad => 0x04
  | ternary .lrp => 0x12
  | ternary .sincos => 0x25
  | ternary .cmp => 0x58
  | ternary .dp2add => 0x5a
  | declaration => 0x1f
  | texld => 0x42
  | definition => 0x51

theorem Shape.shape?_opcode : ∀ s : Shape, shape? s.opcode = some s
  | nop | mov | declaration | texld | definition => rfl
  | unary op => by cases op <;> rfl
  | binary op => by cases op <;> rfl
  | ternary op => by cases op <;> rfl

theorem kindOfCode_codeOfKind (k : RegisterKind) : kindOfCode (codeOfKind k) = .ok (k, 0) := by cases k <;> rfl

theorem modifierOfCode_codeOfModifier (m : Modifier) : modifierOfCode (codeOfModifier m) = .ok m := by cases m <;> rfl

/-! ## Instructions -/

def registerPattern (r : Register) : Pattern :=
  [⟨0, 11, r.number.toNat⟩, ⟨11, 2, codeOfKind r.kind / 8⟩, ⟨28, 3, codeOfKind r.kind % 8⟩]

def destinationPattern (d : Destination) : Pattern :=
  registerPattern d.register ++
    [⟨16, 4, d.mask.code⟩, ⟨21, 1, d.partialPrecision.toNat⟩, ⟨22, 1, d.centroid.toNat⟩]

def sourcePattern (s : Source) : Pattern :=
  registerPattern s.register ++ [⟨16, 8, s.swizzle.code⟩, ⟨24, 4, codeOfModifier s.modifier⟩]

def literalPattern (a : Lane) : Pattern := [⟨0, 32, a.bits.toNat⟩]

def shapeOf : Operation → Shape
  | .nop => .nop
  | .define .. => .definition
  | .declare .. => .declaration
  | .texld .. => .texld
  | .mov .. => .mov
  | .unary op .. => .unary op
  | .binary op .. => .binary op
  | .ternary op .. => .ternary op

def operandPatterns : Operation → List Pattern
  | .nop => []
  | .define index v =>
    destinationPattern { register := ⟨.constant, index⟩, mask := .full, partialPrecision := false, centroid := false }
      :: v.toList.map literalPattern
  | .declare texture d => [[⟨27, 4, codeOfTexture texture⟩], destinationPattern d]
  | o => (o.dest?.toList.map destinationPattern) ++ o.sources.map sourcePattern

def instructionPatterns (i : Instruction) : List Pattern :=
  [⟨0, 16, (shapeOf i.operation).opcode⟩, ⟨28, 1, i.predicate.isSome.toNat⟩]
    :: (operandPatterns i.operation ++ i.predicate.toList.map sourcePattern)

/-! ## Programs -/

def versionPattern : Pattern := [⟨0, 32, 0xffff0200⟩]

def endPattern : Pattern := [⟨0, 16, endCode⟩]

/-- The tokens of a program, with an end token if it is `closed`. -/
def programPatterns (closed : Bool) (p : Program) : List Pattern :=
  versionPattern :: p.instructions.flatMap instructionPatterns ++ (if closed then [endPattern] else [])

def bytesOfWord (t : UInt32) : List UInt8 := [t.toUInt8, (t >>> 8).toUInt8, (t >>> 16).toUInt8, (t >>> 24).toUInt8]

def bytesOfWords (tokens : List UInt32) : List UInt8 := tokens.flatMap bytesOfWord

def assemble (closed : Bool) (p : Program) : List UInt8 :=
  bytesOfWords ((programPatterns closed p).map Pattern.token)

end PixelShader.Bytecode
