import PixelShader.Kernel
/-!
# Laying out a frame

Slots are given out in order of need: a register gets one when it is first mentioned and keeps it, and so does a
partial write mask.  A new slot starts with a value of its own, zero for a register.
-/
namespace PixelShader.Kernel

structure Layout where
  entry : Array Quad := #[]
  cells : List (Cell × Nat) := []
  masks : List (WriteMask × Nat) := []
  externals : List (Nat × Slot) := []
  samplers : List Slot := []

namespace Layout

def cell? (l : Layout) (c : Cell) : Option Nat := l.cells.lookup c

def mask? (l : Layout) (m : WriteMask) : Option Nat := l.masks.lookup m

/-- The slot of a register, a new one if need be. -/
def cell (c : Cell) (l : Layout) : Nat × Layout :=
  match l.cell? c with
  | some slot => (slot, l)
  | none => (l.entry.size, { l with entry := l.entry.push .zero, cells := (c, l.entry.size) :: l.cells })

def mask (m : WriteMask) (l : Layout) : Nat × Layout :=
  match l.mask? m with
  | some slot => (slot, l)
  | none => (l.entry.size, { l with entry := l.entry.push m.lanes, masks := (m, l.entry.size) :: l.masks })

/-- The position of a sampler in the list, at the end if it is new. -/
def sampler (s : Slot) (l : Layout) : Nat × Layout :=
  match l.samplers.idxOf? s with
  | some position => (position, l)
  | none => (l.samplers.length, { l with samplers := l.samplers ++ [s] })

def define (s : Slot) (value : Quad) (l : Layout) : Layout :=
  let (slot, l) := l.cell ⟨.constant, s⟩
  { l with entry := l.entry.setIfInBounds slot value }

def takeExternal (l : Layout) (s : Slot) : Layout :=
  let (slot, l) := l.cell ⟨.constant, s⟩
  { l with externals := l.externals ++ [(slot, s)] }

end Layout
end PixelShader.Kernel
