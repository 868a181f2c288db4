import PixelShader.Arithmetic
import PixelShader.Rendering
/-!
# Kernels: programs with their registers laid out

A kernel is a program whose every operand is the number of a slot in one flat *frame* of quads.  The frame holds the
registers a program uses, the constants it defines, those it takes from the bindings, and one quad of selectors for
each partial write mask.  A run fills a frame once from the bindings; all pixels are shaded in another one, into which
the first is copied before each.
-/
namespace PixelShader.Kernel

abbrev Frame := Array Quad

/-- Reads a slot; outside of the frame there is zero. -/
def Frame.get (f : Frame) (slot : Nat) : Quad := Array.getD f slot .zero

def Frame.put (f : Frame) (slot : Nat) (value : Quad) : Frame := Array.setIfInBounds f slot value

def Frame.copyFrom (f entry : Frame) : Frame := Array.mapIdx (fun slot _ => entry.get slot) f

structure Operand where
  slot : Nat
  swizzle : Swizzle
  negate : Bool
  deriving DecidableEq, Inhabited

def Operand.read (o : Operand) (f : Frame) : Quad :=
  if o.negate then -((f.get o.slot).swizzle o.swizzle) else (f.get o.slot).swizzle o.swizzle

/-- A destination: a slot, written whole or through the selectors in another slot. -/
inductive Target where
  | full (slot : Nat)
  | masked (slot mask : Nat)
  deriving DecidableEq, Inhabited

def Target.write (t : Target) (f : Frame) (value : Quad) : Frame :=
  match t with
  | full slot => f.put slot value
  | masked slot mask => f.put slot (Quad.blend (f.get mask) value (f.get slot))

/-- What a step computes.  A sample names its sampler by the position in the kernel's list. -/
inductive Computation where
  | sample (sampler : Nat) (coordinate : Operand)
  | mov (a : Operand)
  | unary (op : UnaryOp) (a : Operand)
  | binary (op : BinaryOp) (a b : Operand)
  | ternary (op : TernaryOp) (a b c : Operand)
  deriving DecidableEq, Inhabited

def Computation.value (samplers : Array Sampler) (f : Frame) : Computation → Quad
  | sample position coordinate =>
    match samplers[position]? with
    | some s => s.sample (coordinate.read f)
    | none => .zero
  | mov a => a.read f
  | unary op a => op.apply (a.read f)
  | binary op a b => op.apply (a.read f) (b.read f)
  | ternary op a b c => op.apply (a.read f) (b.read f) (c.read f)

structure Step where
  target : Target
  computation : Computation
  deriving DecidableEq, Inhabited

def Step.run (samplers : Array Sampler) (f : Frame) (s : Step) : Frame :=
  s.target.write f (s.computation.value samplers f)

end Kernel

structure Kernel where
  entry : Kernel.Frame
  /-- The slots that take a constant from the bindings, each with the constant. -/
  externals : List (Nat × Slot)
  samplers : List Slot
  coordinate : Option Nat
  color : Option Nat
  body : List Kernel.Step
  deriving DecidableEq

namespace Kernel

def frameSize (k : Kernel) : Nat := k.entry.size

def externalConstants (k : Kernel) : List Slot := k.externals.map (·.2)

def bound (k : Kernel) (constants : ConstantTable) : Frame :=
  k.externals.foldl (fun f e => f.put e.1 (constants.getOrZero (UInt32.ofNat e.2))) k.entry

/-- The colour of a pixel, and the frame when it is found.  A program that never mentions the colour leaves it zero. -/
def shade (k : Kernel) (samplers : Array Sampler) (frame : Frame) (pixel : Pixel) : Quad × Frame :=
  let started :=
    match k.coordinate with
    | some slot => frame.put slot pixel.coordinate
    | none => frame
  let ended := k.body.foldl (Step.run samplers) started
  match k.color with
  | some slot => (ended.get slot, ended)
  | none => (.zero, ended)

def turn (k : Kernel) (samplers : Array Sampler) (entry : Frame) (pixel : Pixel) : EStateM Fault Frame Quad := do
  let (color, frame) := k.shade samplers ((← get).copyFrom entry) pixel
  set frame
  return color

def run (k : Kernel) (b : Bindings) : Rendering :=
  match b.output with
  | none => .refused b (.binding (.unboundOutput 0))
  | some image =>
    match k.samplers.mapM b.samplerAt with
    | .error fault => .refused b (.binding fault)
    | .ok samplers =>
      let entry := k.bound b.constants
      b.draw (k.turn samplers.toArray entry) image entry

/-! ## Description -/

def optionText : Option Nat → String
  | none => "None"
  | some n => "Some(" ++ toString n ++ ")"

def listText (items : List String) : String := "[" ++ ", ".intercalate items ++ "]"

def description (k : Kernel) : String :=
  "CompiledShader \x7b frame_len: " ++ toString k.frameSize
    ++ ", externals: " ++ listText (k.externals.map fun e => "(" ++ toString e.1 ++ ", " ++ toString e.2.val ++ ")")
    ++ ", samplers: " ++ listText (k.samplers.map fun s => toString s.val)
    ++ ", texcoord: " ++ optionText k.coordinate
    ++ ", color_out: " ++ optionText k.color
    ++ ", body_len: " ++ toString k.body.length ++ " \x7d"

end PixelShader.Kernel
