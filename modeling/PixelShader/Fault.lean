import PixelShader.Bytecode.Fault
import PixelShader.Support
/-!
# Faults

Three things can go wrong: the bytecode is malformed, the program uses what cannot be executed, or something it needs
is not bound.  A fault carries its cause; `Fault.message` is the only place where it becomes text.
-/
namespace PixelShader

inductive SlotTable where
  | sampler
  | output
  deriving DecidableEq, Inhabited

def SlotTable.size : SlotTable → Nat
  | sampler => registerSlots
  | output => 1

def SlotTable.name : SlotTable → String
  | sampler => "sampler"
  | output => "output texture"

inductive BindingFault where
  | unboundSampler (index : UInt32)
  | unboundOutput (index : UInt32)
  | missingConstant (index : UInt32)
  | slotOutOfRange (table : SlotTable) (index : UInt32)
  deriving DecidableEq, Inhabited

def BindingFault.message : BindingFault → String
  | unboundSampler index => "sampler slot " ++ toString index.toNat ++ " is not bound"
  | unboundOutput index => "output texture slot " ++ toString index.toNat ++ " is not bound"
  | missingConstant index => "constant c" ++ toString index.toNat ++ " is not set"
  | slotOutOfRange table index =>
    table.name ++ " slot " ++ toString index.toNat ++ " exceeds maximum " ++ toString table.size

inductive Fault where
  | malformed (fault : Bytecode.DecodeFault)
  /-- An instruction that cannot be executed, with its index in the program. -/
  | unsupported (index : Nat) (instruction : Instruction) (objection : Objection)
  | binding (fault : BindingFault)
  deriving DecidableEq, Inhabited

namespace Fault

def message : Fault → String
  | malformed fault => fault.message
  | unsupported index i objection =>
    "instruction " ++ toString index ++ " `" ++ i.text ++ "`: " ++ objection.message
  | binding fault => fault.message

def messages (f : Fault) : List String :=
  f.message :: match f with
    | malformed fault => (fault.cause?.map Bytecode.RegisterFault.message).toList
    | _ => []

end Fault

/-- Why a single operation is not carried out: there is an objection to it, or something is not bound. -/
inductive Refusal where
  | unsupported (objection : Objection)
  | binding (fault : BindingFault)
  deriving DecidableEq, Inhabited

def Refusal.at (r : Refusal) (index : Nat) (i : Instruction) : Fault :=
  match r with
  | unsupported objection => .unsupported index i objection
  | binding fault => .binding fault

def Refusal.lift {α : Type} (x : Except Objection α) : Except Refusal α := x.mapError Refusal.unsupported

end PixelShader
