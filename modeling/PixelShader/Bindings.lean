import PixelShader.Fault
import PixelShader.Texture.Sampler
/-!
# Bindings: what a program runs against

Constants are bound by any 32-bit index, samplers and the output by a slot of a table.  Binding again replaces.
-/
namespace PixelShader

/-! ## Constants -/

structure ConstantTable where
  entries : List (UInt32 × Quad) := []
  deriving DecidableEq

namespace ConstantTable

/-- Puts an entry in its place, over an older one of the same index. -/
def place (index : UInt32) (value : Quad) : List (UInt32 × Quad) → List (UInt32 × Quad)
  | [] => [(index, value)]
  | e :: rest =>
    if index < e.1 then (index, value) :: e :: rest
    else if index = e.1 then (index, value) :: rest
    else e :: place index value rest

def insert (t : ConstantTable) (index : UInt32) (value : Quad) : ConstantTable := ⟨place index value t.entries⟩

def get? (t : ConstantTable) (index : UInt32) : Option Quad := t.entries.lookup index

/-- A constant that is not bound reads as zero. -/
def getOrZero (t : ConstantTable) (index : UInt32) : Quad := (t.get? index).getD .zero

def size (t : ConstantTable) : Nat := t.entries.length

end ConstantTable

/-! ## Samplers -/

/-- The bound samplers by slot.  The table is as long as it had to be so far, and behind its end nothing is bound. -/
structure SamplerBank where
  entries : Array (Option Sampler) := #[]

namespace SamplerBank

def get (t : SamplerBank) (slot : Slot) : Option Sampler := t.entries[slot.val]?.join

def grown (t : SamplerBank) (slot : Slot) : Array (Option Sampler) :=
  if t.entries.size ≤ slot.val then t.entries ++ Array.replicate (slot.val + 1 - t.entries.size) none else t.entries

theorem lt_size_grown (t : SamplerBank) (slot : Slot) : slot.val < (t.grown slot).size := by
  unfold grown
  split
  · rw [Array.size_append, Array.size_replicate]
    omega
  · omega

def set (t : SamplerBank) (slot : Slot) (s : Sampler) : SamplerBank :=
  ⟨(t.grown slot).set slot.val (some s) (t.lt_size_grown slot)⟩

end SamplerBank

/-! ## All bindings -/

structure Bindings where
  constants : ConstantTable := {}
  samplers : SamplerBank := {}
  output : Option Image := none

def SlotTable.check (t : SlotTable) (index : UInt32) : Except BindingFault (Fin t.size) :=
  if h : index.toNat < t.size then .ok ⟨index.toNat, h⟩ else .error (.slotOutOfRange t index)

namespace Bindings

/-! ### Reading -/

def constant (b : Bindings) (index : UInt32) : Except BindingFault Quad :=
  match b.constants.get? index with
  | some value => .ok value
  | none => .error (.missingConstant index)

def constantOrZero (b : Bindings) (index : UInt32) : Quad := b.constants.getOrZero index

def samplerAt (b : Bindings) (slot : Slot) : Except BindingFault Sampler :=
  match b.samplers.get slot with
  | some s => .ok s
  | none => .error (.unboundSampler (UInt32.ofNat slot))

def sampler (b : Bindings) (index : UInt32) : Except BindingFault Sampler := do
  b.samplerAt (← SlotTable.sampler.check index)

def outputAt (b : Bindings) (index : UInt32) : Except BindingFault Image := do
  let _ ← SlotTable.output.check index
  match b.output with
  | some image => return image
  | none => throw (.unboundOutput index)

end Bindings

/-! ### Binding -/

/-- A call that changes the bindings.  What it has done when it fails stays done. -/
abbrev Binder := EStateM BindingFault Bindings

namespace Binder

def perform {α : Type} (call : Binder α) (b : Bindings) : Except BindingFault α × Bindings :=
  match call.run b with
  | .ok a b => (.ok a, b)
  | .error fault b => (.error fault, b)

def setConstant (index : UInt32) (value : Quad) : Binder Unit :=
  modify fun b => { b with constants := b.constants.insert index value }

def setSampler (index : UInt32) (s : Sampler) : Binder Unit := do
  let slot ← MonadExcept.ofExcept (SlotTable.sampler.check index)
  modify fun b => { b with samplers := b.samplers.set slot s }

def setOutput (index : UInt32) (image : Image) : Binder Unit := do
  let _ ← MonadExcept.ofExcept (SlotTable.output.check index)
  modify fun b => { b with output := some image }

def takeOutput (index : UInt32) : Binder Image := do
  let _ ← MonadExcept.ofExcept (SlotTable.output.check index)
  let bound := (← get).output
  modify fun b => { b with output := none }
  match bound with
  | some image => return image
  | none => throw (.unboundOutput index)

end Binder
end PixelShader
