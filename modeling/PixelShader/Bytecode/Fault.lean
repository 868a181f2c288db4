import PixelShader.Bytecode.Parameter
/-!
# What can be wrong with bytecode

Every fault but the first two says where it is, by the index of a token; the version token has index 0.
-/
namespace PixelShader.Bytecode

/-- The largest accepted length of a token stream in bytes. -/
def maxLength : Nat := 262144

inductive DecodeFault where
  | tooLarge (length : Nat)
  | empty
  | truncated (token : Nat)
  | notPixelShader (version : UInt32)
  | unsupportedVersion (major minor : Nat)
  | unknownOpcode (opcode token : Nat)
  | badRegister (token : Nat) (cause : RegisterFault)
  | registerOutOfRange (token : Nat) (register : Register)
  | defineTarget (token : Nat) (kind : RegisterKind)
  | defineMask (token : Nat) (mask : WriteMask)
  deriving DecidableEq, Inhabited

namespace DecodeFault

def message : DecodeFault → String
  | tooLarge length =>
    "shader bytecode length " ++ toString length ++ " exceeds maximum " ++ toString maxLength ++ " bytes"
  | empty => "shader bytecode is empty"
  | truncated token => "unexpected end of token stream at token " ++ toString token
  | notPixelShader version => "version token 0x" ++ Text.hexPadded 8 version.toNat ++ " is not a pixel shader"
  | unsupportedVersion major minor =>
    "unsupported pixel shader version " ++ toString major ++ "." ++ toString minor
  | unknownOpcode opcode token =>
    "unknown or unsupported opcode 0x" ++ Text.hexPadded 4 opcode ++ " at token " ++ toString token
  | badRegister token _ => "bad register token at token " ++ toString token
  | registerOutOfRange token r =>
    "register " ++ r.kind.name ++ " " ++ toString r.number.toNat ++ " at token " ++ toString token
      ++ " is out of range"
  | defineTarget token kind =>
    "def at token " ++ toString token ++ " targets " ++ kind.name ++ ", expected a constant register"
  | defineMask token mask => "def at token " ++ toString token ++ " has partial write mask ." ++ mask.text

def cause? : DecodeFault → Option RegisterFault
  | badRegister _ cause => some cause
  | _ => none

end DecodeFault
end PixelShader.Bytecode
