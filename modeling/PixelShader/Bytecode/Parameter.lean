import PixelShader.Instruction
import PixelShader.Text.Basic
/-!
# Parameter tokens

A parameter token is a 32-bit word that names a register:

```text
31    30..28    27..24      23..16            15..13    12..11     10..0
set   kind lo   modifier    swizzle or mask   unused    kind hi    number
```

The kind is a code of five bits.  Three of the codes stand for the upper banks of constants and add an offset to the
number, of which the ten low bits are read.  A destination keeps its mask in bits 16 to 19 and its hints in bits 21
and 22; a source keeps its swizzle in bits 16 to 23 and its modifier in bits 24 to 27.
-/
namespace PixelShader.Bytecode

def field (token : UInt32) (low width : Nat) : Nat := (token.toNat >>> low) % (1 <<< width)

/-! ## What can be wrong with a parameter token -/

inductive RegisterFault where
  | reservedKind (code : Nat)
  | invalidKind (code : Nat)
  | invalidModifier (code : Nat)
  deriving DecidableEq, Inhabited

def RegisterFault.message : RegisterFault → String
  | reservedKind code => "reserved register type " ++ toString code
  | invalidKind code => "invalid register type " ++ toString code
  | invalidModifier code => "unsupported source modifier 0x" ++ Text.hex code

/-! ## Codes -/

def kindOfCode : Nat → Except RegisterFault (RegisterKind × UInt32)
  | 0 => .ok (.temp, 0)
  | 1 => .ok (.input, 0)
  | 2 => .ok (.constant, 0)
  | 3 => .ok (.texture, 0)
  | 7 => .ok (.constantInt, 0)
  | 8 => .ok (.colorOut, 0)
  | 9 => .ok (.depthOut, 0)
  | 10 => .ok (.samplerState, 0)
  | 11 => .ok (.constant, 2048)
  | 12 => .ok (.constant, 4096)
  | 13 => .ok (.constant, 6144)
  | 14 => .ok (.constantBool, 0)
  | 15 => .ok (.loopCounter, 0)
  | 16 => .ok (.halfTemp, 0)
  | 17 => .ok (.misc, 0)
  | 18 => .ok (.label, 0)
  | 19 => .ok (.predicate, 0)
  | code => if 4 ≤ code ∧ code ≤ 6 then .error (.reservedKind code) else .error (.invalidKind code)

def modifierOfCode : Nat → Except RegisterFault Modifier
  | 0 => .ok .none
  | 1 => .ok .negate
  | 2 => .ok .bias
  | 3 => .ok .biasAndNegate
  | 4 => .ok .sign
  | 5 => .ok .signAndNegate
  | 6 => .ok .complement
  | 7 => .ok .double
  | 8 => .ok .doubleAndNegate
  | 9 => .ok .divideByZ
  | 10 => .ok .divideByW
  | 11 => .ok .abs
  | 12 => .ok .absAndNegate
  | 13 => .ok .not
  | code => .error (.invalidModifier code)

/-! ## Reading a token -/

def kindCode (token : UInt32) : Nat := field token 28 3 + 8 * field token 11 2

/-- The register a token names: the ten low bits of its number, and the offset of the kind's bank. -/
def readRegister (token : UInt32) : Except RegisterFault Register := do
  let (kind, offset) ← kindOfCode (kindCode token)
  return ⟨kind, UInt32.ofNat (field token 0 10) + offset⟩

def readDestination (token : UInt32) : Except RegisterFault Destination := do
  let register ← readRegister token
  return { register
           mask := .ofCode (field token 16 4)
           partialPrecision := field token 21 1 == 1
           centroid := field token 22 1 == 1 }

def readSource (token : UInt32) : Except RegisterFault Source := do
  let register ← readRegister token
  let modifier ← modifierOfCode (field token 24 4)
  return { register, swizzle := .ofCode (field token 16 8), modifier }

/-- The texture kind that a declaration carries in bits 27 to 30 of its own token. -/
def readTextureKind (token : UInt32) : TextureKind :=
  match field token 27 4 with
  | 2 => .flat
  | 3 => .cube
  | 4 => .volume
  | _ => .unknown

end PixelShader.Bytecode
