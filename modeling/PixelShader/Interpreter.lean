import PixelShader.Arithmetic
import PixelShader.Rendering
/-!
# The interpreter

The interpreter runs the instruction list once for every pixel, all on the same register files, which are reset before
each.  All instructions are checked when it is made, so that a program which cannot be executed fails before any pixel is
painted; a step checks again what it needs, and may be taken on any instruction.
-/
namespace PixelShader

/-! ## Register files -/

structure Registers where
  temps : Vector Quad registerSlots
  constants : Vector Quad registerSlots
  coordinates : Vector Quad registerSlots
  colors : Vector Quad registerSlots
  deriving DecidableEq

namespace Registers

def zero : Registers :=
  let zeros := Vector.replicate registerSlots Quad.zero
  ⟨zeros, zeros, zeros, zeros⟩

def get (r : Registers) (c : Cell) : Quad :=
  match c.file with
  | .temp => r.temps[c.slot]
  | .constant => r.constants[c.slot]
  | .coordinate => r.coordinates[c.slot]
  | .color => r.colors[c.slot]

def set (r : Registers) (c : Cell) (value : Quad) : Registers :=
  match c.file with
  | .temp => { r with temps := r.temps.set c.slot value }
  | .constant => { r with constants := r.constants.set c.slot value }
  | .coordinate => { r with coordinates := r.coordinates.set c.slot value }
  | .color => { r with colors := r.colors.set c.slot value }

def clear (r : Registers) : Registers :=
  let wipe (file : Vector Quad registerSlots) : Vector Quad registerSlots := file.map fun _ => .zero
  ⟨wipe r.temps, wipe r.constants, wipe r.coordinates, wipe r.colors⟩

def loadConstant (constants : ConstantTable) (r : Registers) (slot : Slot) : Registers :=
  match constants.get? (UInt32.ofNat slot) with
  | some value => r.set ⟨.constant, slot⟩ value
  | none => r

/-- Clears all registers and loads the bound constants.  Constants beyond the addressable ones are not seen. -/
def reset (r : Registers) (constants : ConstantTable) : Registers :=
  (List.finRange registerSlots).foldl (loadConstant constants) r.clear

def read (r : Registers) (s : Source) : Except Refusal Quad := do
  let (cell, negate) ← Refusal.lift s.cell
  return s.view negate (r.get cell)

end Registers

/-! ## Steps -/

abbrev SamplerTable := Vector (Option Sampler) registerSlots

structure Store where
  cell : Cell
  mask : WriteMask
  value : Quad

def Registers.commit (r : Registers) (s : Store) : Registers := r.set s.cell ((r.get s.cell).write s.value s.mask)

def Destination.store (d : Destination) (value : Quad) : Except Refusal Store :=
  return ⟨← Refusal.lift d.cell, d.mask, value⟩

def SamplerTable.find (t : SamplerTable) (s : Source) : Except Refusal Sampler := do
  let slot ← Refusal.lift s.samplerSlot
  match t.get slot with
  | some sampler => return sampler
  | none => throw (.binding (.unboundSampler (UInt32.ofNat slot)))

/-- What an operation writes, if it writes at all.  Its sources are read before its destination is looked at. -/
def Operation.evaluate (t : SamplerTable) (r : Registers) : Operation → Except Refusal (Option Store)
  | .nop | .declare .. => return none
  | .define index value => do
    let slot ← Refusal.lift (Register.mk .constant index).slot
    return some ⟨⟨.constant, slot⟩, .full, value⟩
  | .texld d coord sampler => do
    let coordinate ← r.read coord
    let s ← t.find sampler
    return some (← d.store (s.sample coordinate))
  | .mov d a => return some (← d.store (← r.read a))
  | .unary op d a => return some (← d.store (op.apply (← r.read a)))
  | .binary op d a b => return some (← d.store (op.apply (← r.read a) (← r.read b)))
  | .ternary op d a b c => do
    Refusal.lift (op.checkMask d.mask)
    return some (← d.store (op.apply (← r.read a) (← r.read b) (← r.read c)))

/-- Carries out one instruction.  Its predicate is not looked at. -/
def Instruction.step (t : SamplerTable) (i : Instruction) : EStateM Refusal Registers Unit := do
  match i.operation.evaluate t (← get) with
  | .error refusal => throw refusal
  | .ok none => pure ()
  | .ok (some s) => modify (·.commit s)

def stepAll (t : SamplerTable) (index : Nat) : List Instruction → EStateM Fault Registers Unit
  | [] => pure ()
  | i :: rest => do
    EStateM.adaptExcept (Refusal.at · index i) (i.step t)
    stepAll t (index + 1) rest

/-! ## Interpreters -/

structure Interpreter where
  program : Program
  samplers : List Slot

namespace Interpreter

/-- The samplers after an operation, with one that is used for the first time at the end. -/
def noteSampler (samplers : List Slot) : Operation → Except Objection (List Slot)
  | .texld _ _ sampler => do
    let slot ← sampler.samplerSlot
    return if slot ∈ samplers then samplers else samplers ++ [slot]
  | _ => .ok samplers

def checkInstruction (state : Declarations × List Slot) (op : Operation) :
    Except Objection (Declarations × List Slot) := do
  let (_, declarations) ← state.1.add op
  op.checkOperands
  return (declarations, ← noteSampler state.2 op)

def check (state : Declarations × List Slot) (index : Nat) :
    List Instruction → Except Fault (Declarations × List Slot)
  | [] => .ok state
  | i :: rest =>
    match checkInstruction state i.operation with
    | .error objection => .error (.unsupported index i objection)
    | .ok state => check state (index + 1) rest

def ofProgram (p : Program) : Except Fault Interpreter := do
  let (_, samplers) ← check ({}, []) 0 p.instructions
  return ⟨p, samplers⟩

def resolve (b : Bindings) : List Slot → SamplerTable → Except BindingFault SamplerTable
  | [], t => .ok t
  | slot :: rest, t => do
    let s ← b.samplerAt slot
    resolve b rest (t.set slot (some s))

def shade (p : Program) (t : SamplerTable) (pixel : Pixel) : EStateM Fault Registers Quad := do
  modify (·.set .coordinate pixel.coordinate)
  stepAll t 0 p.instructions
  return (← get).get .color

def turn (p : Program) (t : SamplerTable) (constants : ConstantTable) (pixel : Pixel) :
    EStateM Fault Registers Quad := do
  modify (·.reset constants)
  shade p t pixel

def run (i : Interpreter) (b : Bindings) : Rendering :=
  match b.output with
  | none => .refused b (.binding (.unboundOutput 0))
  | some image =>
    match resolve b i.samplers (.replicate registerSlots none) with
    | .error fault => .refused b (.binding fault)
    | .ok t => b.draw (turn i.program t b.constants) image .zero

end Interpreter
end PixelShader
