import PixelShader.Png.Checksum
/-!
# Decompressing

Compressed data is a string of bits, read from the low end of each byte.  Blocks are stored as they are or coded with
two prefix codes, one for literals and lengths and one for distances; a length and a distance stand for a copy of what
came out before.  Every loop is bounded by the number of bits, since each turn reads at least one.
-/
namespace PixelShader.Png

structure Bits where
  data : ByteArray
  position : Nat

abbrev BitReader := StateT Bits Option

namespace BitReader

def bit : BitReader Nat := fun s =>
  if s.position / 8 < s.data.size then
    some ((byteAt s.data (s.position / 8) >>> (s.position % 8)) % 2, { s with position := s.position + 1 })
  else none

def number : Nat → BitReader Nat
  | 0 => return 0
  | n + 1 => do
    let low ← bit
    return low + 2 * (← number n)

def align : BitReader Unit := fun s => some ((), { s with position := (s.position + 7) / 8 * 8 })

end BitReader

/-- A prefix code: how many codewords there are of each length, and the symbols in the order of their codewords. -/
structure PrefixCode where
  counts : Array Nat
  symbols : Array Nat

namespace PrefixCode

def ofLengths (lengths : List Nat) : PrefixCode :=
  { counts := ((List.range 16).map fun n => if n = 0 then 0 else lengths.count n).toArray
    symbols := ((List.range 15).flatMap fun n =>
      (lengths.zipIdx.filter fun e => e.1 == n + 1).map fun e => e.2).toArray }

/-- Reads a symbol.  `code` is what has been read, `first` the first codeword of the present length and `index` the place
of its symbol. -/
def readFrom (c : PrefixCode) (code first index : Nat) : List Nat → BitReader Nat
  | [] => fun _ => none
  | length :: rest => do
    let code := code + (← BitReader.bit)
    let count := c.counts.getD length 0
    if code < first + count then return c.symbols.getD (index + (code - first)) 0
    else readFrom c (2 * code) (2 * (first + count)) (index + count) rest

def read (c : PrefixCode) : BitReader Nat := c.readFrom 0 0 0 (List.range' 1 15)

end PrefixCode

/-! ## The codes of the format -/

/-- The least length of each length symbol, with the number of extra bits. -/
def lengthTable : Array (Nat × Nat) :=
  #[(3, 0), (4, 0), (5, 0), (6, 0), (7, 0), (8, 0), (9, 0), (10, 0), (11, 1), (13, 1), (15, 1), (17, 1), (19, 2), (23, 2),
    (27, 2), (31, 2), (35, 3), (43, 3), (51, 3), (59, 3), (67, 4), (83, 4), (99, 4), (115, 4), (131, 5), (163, 5), (195, 5),
    (227, 5), (258, 0)]

def distanceTable : Array (Nat × Nat) :=
  #[(1, 0), (2, 0), (3, 0), (4, 0), (5, 1), (7, 1), (9, 2), (13, 2), (17, 3), (25, 3), (33, 4), (49, 4), (65, 5), (97, 5),
    (129, 6), (193, 6), (257, 7), (385, 7), (513, 8), (769, 8), (1025, 9), (1537, 9), (2049, 10), (3073, 10), (4097, 11),
    (6145, 11), (8193, 12), (12289, 12), (16385, 13), (24577, 13)]

def fixedLiterals : PrefixCode :=
  .ofLengths (List.replicate 144 8 ++ List.replicate 112 9 ++ List.replicate 24 7 ++ List.replicate 8 8)

def fixedDistances : PrefixCode := .ofLengths (List.replicate 30 5)

/-- The order in which a block gives the lengths of the code for code lengths. -/
def codeLengthOrder : List Nat := [16, 17, 18, 0, 8, 7, 9, 6, 10, 5, 11, 4, 12, 3, 13, 2, 14, 1, 15]

/-! ## Blocks -/

open BitReader

def copyBack (distance : Nat) : Nat → ByteArray → ByteArray
  | 0, out => out
  | n + 1, out => copyBack distance n (out.push (UInt8.ofNat (byteAt out (out.size - distance))))

def readExtra (table : Array (Nat × Nat)) (symbol : Nat) : BitReader Nat := do
  match table[symbol]? with
  | some (base, extra) => return base + (← number extra)
  | none => fun _ => none

def codedBlock (literals distances : PrefixCode) : Nat → ByteArray → BitReader ByteArray
  | 0, _ => fun _ => none
  | fuel + 1, out => do
    let symbol ← literals.read
    if symbol < 256 then codedBlock literals distances fuel (out.push (UInt8.ofNat symbol))
    else if symbol = 256 then return out
    else
      let length ← readExtra lengthTable (symbol - 257)
      let distance ← readExtra distanceTable (← distances.read)
      if out.size < distance then fun _ => none
      else codedBlock literals distances fuel (copyBack distance length out)

def storedBytes : Nat → ByteArray → BitReader ByteArray
  | 0, out => return out
  | n + 1, out => do storedBytes n (out.push (UInt8.ofNat (← number 8)))

def storedBlock (out : ByteArray) : BitReader ByteArray := do
  align
  let length ← number 16
  let _ ← number 16
  storedBytes length out

def readLengths (code : PrefixCode) (total : Nat) : Nat → Array Nat → BitReader (Array Nat)
  | 0, _ => fun _ => none
  | fuel + 1, lengths =>
    if total ≤ lengths.size then return lengths
    else do
      let symbol ← code.read
      if symbol < 16 then readLengths code total fuel (lengths.push symbol)
      else
        let (value, count) ←
          if symbol = 16 then pure (lengths.back?.getD 0, 3 + (← number 2))
          else if symbol = 17 then pure (0, 3 + (← number 3))
          else pure (0, 11 + (← number 7))
        readLengths code total fuel (lengths ++ Array.replicate count value)

def lengthPairs : List Nat → BitReader (List (Nat × Nat))
  | [] => return []
  | symbol :: rest => do
    let length ← number 3
    return (symbol, length) :: (← lengthPairs rest)

def dynamicBlock (fuel : Nat) (out : ByteArray) : BitReader ByteArray := do
  let literalCount := (← number 5) + 257
  let distanceCount := (← number 5) + 1
  let codeCount := (← number 4) + 4
  let given ← lengthPairs (codeLengthOrder.take codeCount)
  let code := PrefixCode.ofLengths ((List.range 19).map fun s => (given.lookup s).getD 0)
  let lengths := (← readLengths code (literalCount + distanceCount) fuel #[]).toList
  codedBlock (.ofLengths (lengths.take literalCount))
    (.ofLengths ((lengths.drop literalCount).take distanceCount)) fuel out

def blocks : Nat → ByteArray → BitReader ByteArray
  | 0, _ => fun _ => none
  | fuel + 1, out => do
    let last ← bit
    let out ←
      match ← number 2 with
      | 0 => storedBlock out
      | 1 => codedBlock fixedLiterals fixedDistances (fuel + 1) out
      | 2 => dynamicBlock (fuel + 1) out
      | _ => fun _ => none
    if last = 1 then return out else blocks fuel out

/-- What compressed data stands for.  Its header and the sum at its end are passed over. -/
def inflate (data : ByteArray) : Option ByteArray :=
  (blocks (8 * data.size) .empty ⟨data, 16⟩).map (·.1)

end PixelShader.Png
