import PixelShader.Png.Encode
import PixelShader.Png.Inflate
/-!
# Reading a PNG as a picture

All colour types and depths are brought to eight bits for each of four channels.  The pixels come in one pass, or in
seven passes over ever finer lattices.
-/
namespace PixelShader.Png

inductive DecodeFault where
  | cut
  | signature
  | malformed
  deriving DecidableEq, Inhabited

def DecodeFault.messages : DecodeFault → List String
  | cut => ["unexpected end of file"]
  | signature => ["Format error decoding Png: Invalid PNG signature.", "Invalid PNG signature."]
  | malformed => ["Format error decoding Png: Corrupt data.", "Corrupt data."]

def bigEndianAt (data : ByteArray) (offset : Nat) : Nat :=
  (List.range 4).foldl (fun n i => n * 256 + byteAt data (offset + i)) 0

/-- The chunks from an offset on, by name.  The name of a chunk is kept as a number. -/
def chunksFrom (data : ByteArray) (offset : Nat) : Nat → List (Nat × ByteArray)
  | 0 => []
  | fuel + 1 =>
    let length := bigEndianAt data offset
    if data.size < offset + 12 + length then []
    else
      (bigEndianAt data (offset + 4), data.extract (offset + 8) (offset + 8 + length))
        :: chunksFrom data (offset + 12 + length) fuel

def chunkCode (name : String) : Nat := bigEndianAt name.toUTF8 0

structure Form where
  width : Nat
  height : Nat
  depth : Nat
  colorType : Nat
  palette : ByteArray
  transparency : ByteArray

namespace Form

def channels (f : Form) : Nat :=
  match f.colorType with
  | 2 => 3
  | 4 => 2
  | 6 => 4
  | _ => 1

def bitsPerPixel (f : Form) : Nat := f.channels * f.depth

def rowBytes (f : Form) : Nat := (f.width * f.bitsPerPixel + 7) / 8

/-- The bytes of all rows with their filters.  Rows without pixels are not stored. -/
def size (f : Form) : Nat := if f.width = 0 then 0 else f.height * (f.rowBytes + 1)

/-- The distance in bytes to the same sample of the pixel before. -/
def stride (f : Form) : Nat := Nat.max 1 (f.bitsPerPixel / 8)

end Form

/-- Of three neighbours the one nearest to left plus above minus both. -/
def paeth (left above corner : Nat) : Nat :=
  let p : Int := (left : Int) + above - corner
  let a := (p - left).natAbs
  let b := (p - above).natAbs
  let c := (p - corner).natAbs
  if a ≤ b ∧ a ≤ c then left else if b ≤ c then above else corner

/-- Undoes the filter of the row that starts at `offset`; `out` holds the rows before it. -/
def unfilterRow (f : Form) (data : ByteArray) (offset : Nat) (out : ByteArray) : ByteArray :=
  let start := out.size
  let filter := byteAt data offset
  (List.range f.rowBytes).foldl (fun out i =>
    let raw := byteAt data (offset + 1 + i)
    let left := if f.stride ≤ i then byteAt out (start + i - f.stride) else 0
    let above := if f.rowBytes ≤ start then byteAt out (start + i - f.rowBytes) else 0
    let corner :=
      if f.stride ≤ i ∧ f.rowBytes ≤ start then byteAt out (start + i - f.rowBytes - f.stride) else 0
    let predicted :=
      match filter with
      | 1 => left
      | 2 => above
      | 3 => (left + above) / 2
      | 4 => paeth left above corner
      | _ => 0
    out.push (UInt8.ofNat (raw + predicted))) out

def unfilter (f : Form) (data : ByteArray) (offset : Nat) : ByteArray :=
  (List.range f.height).foldl (fun out row => unfilterRow f data (offset + row * (f.rowBytes + 1)) out) .empty

def sampleAt (f : Form) (rows : ByteArray) (x y channel : Nat) : Nat :=
  let place := x * f.channels + channel
  let stored (n : Nat) : Nat := byteAt rows (y * f.rowBytes + n)
  if f.depth = 16 then stored (2 * place) * 256 + stored (2 * place + 1)
  else
    let bit := place * f.depth
    (stored (bit / 8) >>> (8 - f.depth - bit % 8)) % (1 <<< f.depth)

def level (f : Form) (sample : Nat) : Nat :=
  if f.depth = 16 then (sample + 128) / 257 else sample * 255 / ((1 <<< f.depth) - 1)

def pixel (red green blue alpha : Nat) : Rgba := ⟨.ofNat red, .ofNat green, .ofNat blue, .ofNat alpha⟩

def pixelAt (f : Form) (rows : ByteArray) (x y : Nat) : Rgba :=
  let sample := sampleAt f rows x y
  let key (n : Nat) : Nat :=
    byteAt f.transparency (2 * n) * 256 + byteAt f.transparency (2 * n + 1)
  match f.colorType with
  | 0 =>
    let g := level f (sample 0)
    pixel g g g (if f.transparency.size = 2 ∧ key 0 = sample 0 then 0 else 255)
  | 2 =>
    let keyed := f.transparency.size = 6 ∧ key 0 = sample 0 ∧ key 1 = sample 1 ∧ key 2 = sample 2
    pixel (level f (sample 0)) (level f (sample 1)) (level f (sample 2)) (if keyed then 0 else 255)
  | 3 =>
    let entry (n : Nat) : Nat := byteAt f.palette (3 * sample 0 + n)
    pixel (entry 0) (entry 1) (entry 2) (if sample 0 < f.transparency.size then byteAt f.transparency (sample 0) else 255)
  | 4 =>
    let g := level f (sample 0)
    pixel g g g (level f (sample 1))
  | _ => pixel (level f (sample 0)) (level f (sample 1)) (level f (sample 2)) (level f (sample 3))

/-- The pixels of a pass: a lattice with a first column and row and the steps from one to the next. -/
structure Pass where
  column : Nat
  row : Nat
  across : Nat
  down : Nat

namespace Pass

def all (interlaced : Bool) : List Pass :=
  if interlaced then
    [⟨0, 0, 8, 8⟩, ⟨4, 0, 8, 8⟩, ⟨0, 4, 4, 8⟩, ⟨2, 0, 4, 4⟩, ⟨0, 2, 2, 4⟩, ⟨1, 0, 2, 2⟩, ⟨0, 1, 1, 2⟩]
  else [⟨0, 0, 1, 1⟩]

def form (p : Pass) (f : Form) : Form :=
  { f with
    width := (f.width - p.column + (p.across - 1)) / p.across
    height := (f.height - p.row + (p.down - 1)) / p.down }

def holds (p : Pass) (x y : Nat) : Bool :=
  p.column ≤ x && (x - p.column) % p.across == 0 && p.row ≤ y && (y - p.row) % p.down == 0

end Pass

def readPasses (f : Form) (data : ByteArray) : Nat → List Pass → List (Pass × ByteArray)
  | _, [] => []
  | offset, p :: ps => (p, unfilter (p.form f) data offset) :: readPasses f data (offset + (p.form f).size) ps

def pixelIn (f : Form) (passes : List (Pass × ByteArray)) (x y : Nat) : Rgba :=
  match passes.find? (·.1.holds x y) with
  | none => default
  | some (p, rows) => pixelAt (p.form f) rows ((x - p.column) / p.across) ((y - p.row) / p.down)

def pictureOf (f : Form) (passes : List Pass) (data : ByteArray) : Except DecodeFault Picture :=
  if data.size < passes.foldl (fun n p => n + (p.form f).size) 0 then .error .malformed
  else
    let parts := readPasses f data 0 passes
    let pixels := (Array.range (f.width * f.height)).map fun n => pixelIn f parts (n % f.width) (n / f.width)
    match Picture.ofPixels? (UInt32.ofNat f.width) (UInt32.ofNat f.height) pixels with
    | none => .error .malformed
    | some picture => .ok picture

def readChunks (chunks : List (Nat × ByteArray)) : Except DecodeFault Picture :=
  match chunks.lookup (chunkCode "IHDR") with
  | none => .error .cut
  | some header =>
    let f : Form :=
      { width := bigEndianAt header 0
        height := bigEndianAt header 4
        depth := byteAt header 8
        colorType := byteAt header 9
        palette := (chunks.lookup (chunkCode "PLTE")).getD .empty
        transparency := (chunks.lookup (chunkCode "tRNS")).getD .empty }
    let packed := (chunks.filter (·.1 == chunkCode "IDAT")).foldl (fun out c => out ++ c.2) ByteArray.empty
    match inflate packed with
    | none => .error .malformed
    | some data => pictureOf f (Pass.all (byteAt header 12 == 1)) data

/-- Reads a file.  Its signature is judged four bytes at a time. -/
def decode (data : ByteArray) : Except DecodeFault Picture :=
  let judged := Nat.min 8 (data.size / 4 * 4)
  if data.extract 0 judged != signature.extract 0 judged then .error .signature
  else readChunks (chunksFrom data 8 data.size)

end PixelShader.Png
