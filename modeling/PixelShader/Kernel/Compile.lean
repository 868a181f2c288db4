import PixelShader.Kernel.Layout
/-!
# Compiling a program to a kernel

Declarations come first, whatever stands between them, so a definition holds in the whole program.  Then come the
constants that are read and not defined, in ascending order, and the partial write masks, likewise.  Last, each
operation becomes one step; its registers get their slots in the order destination, mask, sources.
-/
namespace PixelShader

/-! ## What a program needs -/

namespace Program

def readsConstant (p : Program) (s : Slot) : Bool :=
  p.instructions.any fun i => i.operation.sources.any fun a => a.register == ⟨.constant, UInt32.ofNat s⟩

def definesConstant (p : Program) (s : Slot) : Bool :=
  p.instructions.any fun i =>
    match i.operation with
    | .define index _ => index == UInt32.ofNat s
    | _ => false

def externalConstants (p : Program) : List Slot :=
  (List.finRange registerSlots).filter fun s => p.readsConstant s && !p.definesConstant s

def usesMask (p : Program) (m : WriteMask) : Bool := p.instructions.any fun i => i.operation.dest?.any (·.mask == m)

def partialMasks (p : Program) : List WriteMask :=
  ((List.range 256).map fun n => WriteMask.mk (UInt8.ofNat n)).filter fun m => !m.isFull && p.usesMask m

end Program

namespace Kernel

/-! ## Declarations -/

def declareAll (ds : Declarations) (l : Layout) (index : Nat) : List Instruction → Except Fault Layout
  | [] => .ok l
  | i :: rest =>
    match ds.add i.operation with
    | .error objection => .error (.unsupported index i objection)
    | .ok (.constant slot value, ds) => declareAll ds (l.define slot value) (index + 1) rest
    | .ok (.coordinate, ds) => declareAll ds (l.cell .coordinate).2 (index + 1) rest
    | .ok (_, ds) => declareAll ds l (index + 1) rest

def header (p : Program) : Except Fault Layout := do
  let l ← declareAll {} {} 0 p.instructions
  let l := p.externalConstants.foldl Layout.takeExternal l
  return p.partialMasks.foldl (fun l m => (l.mask m).2) l

/-! ## Steps -/

abbrev Lower := StateT Layout (Except Objection)

namespace Lower

def slot (find : Layout → Nat × Layout) : Lower Nat := fun l => .ok (find l)

def operand (s : Source) : Lower Operand := do
  let (cell, negate) ← s.cell
  return ⟨← slot (Layout.cell cell), s.swizzle, negate⟩

def target (d : Destination) : Lower Target := do
  let register ← slot (Layout.cell (← d.cell))
  if d.mask.isFull then return .full register
  else return .masked register (← slot (Layout.mask d.mask))

def operation : Operation → Lower (Option Step)
  | .nop | .define .. | .declare .. => return none
  | .texld d coord sampler => do
    let t ← target d
    let coordinate ← operand coord
    let position ← slot (Layout.sampler (← sampler.samplerSlot))
    return some ⟨t, .sample position coordinate⟩
  | .mov d a => do
    let t ← target d
    return some ⟨t, .mov (← operand a)⟩
  | .unary op d a => do
    let t ← target d
    return some ⟨t, .unary op (← operand a)⟩
  | .binary op d a b => do
    let t ← target d
    return some ⟨t, .binary op (← operand a) (← operand b)⟩
  | .ternary op d a b c => do
    op.checkMask d.mask
    let t ← target d
    return some ⟨t, .ternary op (← operand a) (← operand b) (← operand c)⟩

end Lower

/-- The steps of instructions in order, behind those already made; `index` is that of the first instruction. -/
def lowerAll (l : Layout) (index : Nat) (done : Array Step) : List Instruction → Except Fault (Array Step × Layout)
  | [] => .ok (done, l)
  | i :: rest =>
    match Lower.operation i.operation l with
    | .error objection => .error (.unsupported index i objection)
    | .ok (step, l) => lowerAll l (index + 1) (step.elim done done.push) rest

def lower (p : Program) : Except Fault (Array Step × Layout) := do
  lowerAll (← header p) 0 #[] p.instructions

def ofLayout (l : Layout) (body : List Step) : Kernel :=
  { entry := l.entry
    externals := l.externals
    samplers := l.samplers
    coordinate := l.cell? .coordinate
    color := l.cell? .color
    body }

def compile (p : Program) : Except Fault Kernel := do
  let (body, l) ← lower p
  return ofLayout l body.toList

end Kernel
end PixelShader
