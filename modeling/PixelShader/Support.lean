import PixelShader.Instruction
/-!
# Which instructions can be executed

Bytecode can say more than is executed here.  An operand is supported when it resolves to a *cell*, one slot of the
four register files; a declaration is supported when it declares something new of a supported form.  Whatever is not
supported has an objection, and every execution strategy raises the same ones.
-/
namespace PixelShader

/-! ## Objections -/

inductive Objection where
  | outOfRange (register : Register)
  | modifier (modifier : Modifier)
  | noOutput (register : Register)
  | cannotWrite (kind : RegisterKind)
  | cannotRead (kind : RegisterKind)
  | unsetCoordinate (register : Register)
  | notSampler (register : Register)
  | redefined (index : UInt32)
  | samplerTexture (texture : TextureKind)
  | redeclared (register : Register)
  | secondCoordinate
  | undeclarable (register : Register)
  | coordinateMask (mask : WriteMask)
  | sincosMask (mask : WriteMask)
  deriving DecidableEq, Inhabited

def Objection.message : Objection → String
  | outOfRange r => "register " ++ r.text ++ " is out of range"
  | modifier m => "source modifier " ++ m.name ++ " is not supported"
  | noOutput r => r.text ++ " is not bound to an output texture"
  | cannotWrite kind => "cannot write " ++ kind.name ++ " registers"
  | cannotRead kind => "cannot read " ++ kind.name ++ " registers"
  | unsetCoordinate r => "texture coordinate " ++ r.text ++ " is never set"
  | notSampler r => r.text ++ " is not a sampler"
  | redefined index => "c" ++ toString index.toNat ++ " is defined more than once"
  | samplerTexture texture => texture.name ++ " samplers are not supported"
  | redeclared r => r.text ++ " is declared more than once"
  | secondCoordinate => "only one texture coordinate can be declared"
  | undeclarable r => r.text ++ " is never set"
  | coordinateMask mask => "texture coordinate mask ." ++ mask.text ++ " is not supported"
  | sincosMask mask => "sincos write mask ." ++ mask.text ++ " is not supported"

/-! ## Operands -/

inductive RegisterFile where
  | temp
  | constant
  | coordinate
  | color
  deriving DecidableEq, Inhabited

abbrev Slot := Fin registerSlots

structure Cell where
  file : RegisterFile
  slot : Slot
  deriving DecidableEq

/-- The coordinate of the pixel, the one texture register that is ever set. -/
def Cell.coordinate : Cell := ⟨.coordinate, 0⟩

/-- The colour of the pixel, the one output that is ever written. -/
def Cell.color : Cell := ⟨.color, 0⟩

def Register.slot (r : Register) : Except Objection Slot :=
  if h : r.number.toNat < registerSlots then .ok ⟨r.number.toNat, h⟩ else .error (.outOfRange r)

def Register.colorCell (r : Register) : Except Objection Cell :=
  if r.number = 0 then .ok .color else .error (.noOutput r)

/-- Temporary registers and the colour can be written. -/
def Destination.cell (d : Destination) : Except Objection Cell :=
  match d.register.kind with
  | .temp => return ⟨.temp, ← d.register.slot⟩
  | .colorOut => d.register.colorCell
  | kind => .error (.cannotWrite kind)

def Register.readCell (r : Register) : Except Objection Cell :=
  match r.kind with
  | .temp => return ⟨.temp, ← r.slot⟩
  | .constant => return ⟨.constant, ← r.slot⟩
  | .colorOut => r.colorCell
  | .texture => if r.number = 0 then .ok .coordinate else .error (.unsetCoordinate r)
  | kind => .error (.cannotRead kind)

def Modifier.negates : Modifier → Except Objection Bool
  | .none => .ok false
  | .negate => .ok true
  | m => .error (.modifier m)

def Source.cell (s : Source) : Except Objection (Cell × Bool) :=
  return (← s.register.readCell, ← s.modifier.negates)

def Source.view (s : Source) (negate : Bool) (value : Quad) : Quad :=
  if negate then -(value.swizzle s.swizzle) else value.swizzle s.swizzle

/-- The sampler a source names.  Its swizzle and modifier do not count. -/
def Source.samplerSlot (s : Source) : Except Objection Slot :=
  if s.register.kind ≠ .samplerState then .error (.notSampler s.register) else s.register.slot

/-- Sine and cosine go to `x` and `y`, to one of them or both. -/
def WriteMask.checkSincos (m : WriteMask) : Except Objection Unit :=
  if m = .empty ∨ !m.within .xy then .error (.sincosMask m) else .ok ()

def TernaryOp.checkMask (op : TernaryOp) (m : WriteMask) : Except Objection Unit :=
  if op = .sincos then m.checkSincos else .ok ()

def Operation.checkOperands : Operation → Except Objection Unit
  | .nop | .define .. | .declare .. => .ok ()
  | .texld d coord sampler => do
    let _ ← d.cell
    let _ ← coord.cell
    let _ ← sampler.samplerSlot
  | .mov d a | .unary _ d a => do
    let _ ← d.cell
    let _ ← a.cell
  | .binary _ d a b => do
    let _ ← d.cell
    let _ ← a.cell
    let _ ← b.cell
  | .ternary op d a b c => do
    let _ ← d.cell
    op.checkMask d.mask
    let _ ← a.cell
    let _ ← b.cell
    let _ ← c.cell

/-! ## Declarations -/

structure Declarations where
  constants : List UInt32 := []
  samplers : List UInt32 := []
  coordinate : Bool := false

inductive Declared where
  | constant (slot : Slot) (value : Quad)
  | sampler (slot : Slot)
  | coordinate
  | nothing

namespace Declarations

def define (ds : Declarations) (index : UInt32) (value : Quad) : Except Objection (Declared × Declarations) := do
  let slot ← (Register.mk .constant index).slot
  if index ∈ ds.constants then throw (.redefined index)
  return (.constant slot value, { ds with constants := index :: ds.constants })

def declareSampler (ds : Declarations) (texture : TextureKind) (r : Register) :
    Except Objection (Declared × Declarations) := do
  let slot ← r.slot
  if texture ≠ .flat then throw (.samplerTexture texture)
  if r.number ∈ ds.samplers then throw (.redeclared r)
  return (.sampler slot, { ds with samplers := r.number :: ds.samplers })

def declareCoordinate (ds : Declarations) (d : Destination) : Except Objection (Declared × Declarations) := do
  if ds.coordinate then throw .secondCoordinate
  if d.register.number ≠ 0 then throw (.undeclarable d.register)
  if d.mask ≠ .xy then throw (.coordinateMask d.mask)
  return (.coordinate, { ds with coordinate := true })

/-- Adds what an operation declares.  Declarations of other registers than samplers and coordinates are ignored. -/
def add (ds : Declarations) : Operation → Except Objection (Declared × Declarations)
  | .define index value => ds.define index value
  | .declare texture d =>
    match d.register.kind with
    | .samplerState => ds.declareSampler texture d.register
    | .texture => ds.declareCoordinate d
    | _ => .ok (.nothing, ds)
  | _ => .ok (.nothing, ds)

end Declarations
end PixelShader
