import PixelShader.Bytecode.Decode
import PixelShader.Kernel.Compile
/-!
# A bounded cache of kernels

Kernels are kept by the bytes they were compiled from, most recently used first.  When there is no room, the one used
longest ago goes.  What cannot be decoded or compiled is not kept.
-/
namespace PixelShader

inductive KernelOrigin where
  | memory
  | compiled
  deriving DecidableEq, Inhabited

structure KernelCache where
  capacity : Nat
  /-- The kernels with their bytes, most recently used first. -/
  entries : List (List UInt8 × Kernel) := []

namespace KernelCache

def defaultCapacity : Nat := 64

def size (c : KernelCache) : Nat := c.entries.length

def clear (c : KernelCache) : KernelCache := { c with entries := [] }

/-- Makes a kernel the most recently used one. -/
def touch (c : KernelCache) (bytes : List UInt8) (k : Kernel) : KernelCache :=
  { c with entries := ((bytes, k) :: c.entries.filter (·.1 != bytes)).take c.capacity }

def build (bytes : List UInt8) : Except Fault Kernel := do
  let p ← (Bytecode.decode bytes).mapError Fault.malformed
  Kernel.compile p

def fetch (c : KernelCache) (bytes : List UInt8) : Except Fault (KernelOrigin × Kernel) × KernelCache :=
  match c.entries.lookup bytes with
  | some k => (.ok (.memory, k), c.touch bytes k)
  | none =>
    match build bytes with
    | .error fault => (.error fault, c)
    | .ok k => (.ok (.compiled, k), c.touch bytes k)

end KernelCache
end PixelShader
