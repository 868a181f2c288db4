import PixelShader.Png.Inflate
/-!
# Compressing

All data goes into one block of the fixed codes.  A copy is looked for only at a few given distances, those at which data
is likely to repeat, and the longest one found is taken.  So long runs become short, and what does not repeat grows by at
most one bit in eight.
-/
namespace PixelShader.Png

/-- Bits already written: the whole bytes, and the bits of the byte begun with their number. -/
structure BitWriter where
  bytes : ByteArray
  begun : Nat
  count : Nat

namespace BitWriter

def ofBytes (bytes : ByteArray) : BitWriter := ⟨bytes, 0, 0⟩

def bit (w : BitWriter) (value : Nat) : BitWriter :=
  let begun := w.begun + value <<< w.count
  if w.count = 7 then ⟨w.bytes.push (UInt8.ofNat begun), 0, 0⟩ else ⟨w.bytes, begun, w.count + 1⟩

/-- A number of the given width, lowest bit first. -/
def number (w : BitWriter) : Nat → Nat → BitWriter
  | 0, _ => w
  | width + 1, value => (w.bit (value % 2)).number width (value / 2)

/-- A codeword of the given width, highest bit first. -/
def codeword (w : BitWriter) : Nat → Nat → BitWriter
  | 0, _ => w
  | width + 1, value => (w.bit ((value >>> width) % 2)).codeword width value

def finish (w : BitWriter) : ByteArray := if w.count = 0 then w.bytes else w.bytes.push (UInt8.ofNat w.begun)

def symbol (w : BitWriter) (symbol : Nat) : BitWriter :=
  if symbol < 144 then w.codeword 8 (0x30 + symbol)
  else if symbol < 256 then w.codeword 9 (0x100 + symbol)
  else if symbol < 280 then w.codeword 7 (symbol - 256)
  else w.codeword 8 (symbol - 88)

end BitWriter

structure Copy where
  length : Nat
  distance : Nat

namespace Copy

def maxLength : Nat := 258

def maxDistance : Nat := 32768

def repeats (data : ByteArray) (distance position : Nat) : Nat → Nat
  | 0 => 0
  | n + 1 =>
    if byteAt data position = byteAt data (position - distance) then repeats data distance (position + 1) n + 1 else 0

/-- The longest copy at a position from one of the distances; of equally long ones the first. -/
def longest (data : ByteArray) (distances : List Nat) (position : Nat) : Copy :=
  distances.foldl (fun best distance =>
    let bound := if distance ≤ position then min maxLength (data.size - position) else 0
    let length := repeats data distance position bound
    if best.length < length then ⟨length, distance⟩ else best) ⟨0, 0⟩

end Copy

/-- The symbol of a length or distance: the last one whose least value does not exceed it. -/
def symbolOf (table : Array (Nat × Nat)) (value : Nat) : Nat :=
  table.foldl (fun n e => if e.1 ≤ value then n + 1 else n) 0 - 1

namespace BitWriter

def extra (w : BitWriter) (table : Array (Nat × Nat)) (value : Nat) : BitWriter :=
  let (base, width) := table.getD (symbolOf table value) (0, 0)
  w.number width (value - base)

def copy (w : BitWriter) (c : Copy) : BitWriter :=
  (((w.symbol (257 + symbolOf lengthTable c.length)).extra lengthTable c.length).codeword 5
    (symbolOf distanceTable c.distance)).extra distanceTable c.distance

/-- Writes the last bytes of the data, as many as the first number says.  The second is how many of them belong to a copy
already written. -/
def compress (data : ByteArray) (distances : List Nat) : Nat → Nat → BitWriter → BitWriter
  | 0, _, w => w
  | n + 1, covered + 1, w => compress data distances n covered w
  | n + 1, 0, w =>
    let position := data.size - (n + 1)
    let found := Copy.longest data distances position
    if found.length < 3 then compress data distances n 0 (w.symbol (byteAt data position))
    else compress data distances n (found.length - 1) (w.copy found)

end BitWriter

/-- Compressed data: a header, one last block in the fixed codes and the sum of the data.  `distances` are where copies
are looked for. -/
def deflate (distances : List Nat) (data : ByteArray) : ByteArray :=
  let start := ((BitWriter.ofBytes ⟨#[0x78, 0x01]⟩).number 1 1).number 2 1
  let distances := distances.filter fun d => 0 < d && d ≤ Copy.maxDistance
  ((start.compress data distances data.size 0).symbol 256).finish ++ bigEndian (adler data)

end PixelShader.Png
