/-!
# Bytes and checksums of the PNG format

A chunk is guarded by a cyclic redundancy check of 32 bits, and compressed data by two running sums.
-/
namespace PixelShader.Png

def byteAt (bytes : ByteArray) (offset : Nat) : Nat := if h : offset < bytes.size then bytes[offset].toNat else 0

def bigEndian (n : UInt32) : ByteArray :=
  ⟨#[(n >>> 24).toUInt8, (n >>> 16).toUInt8, (n >>> 8).toUInt8, n.toUInt8]⟩

/-- One bit of the division by the polynomial, in reflected order. -/
def crcBit (r : UInt32) : UInt32 := if r &&& 1 = 1 then (r >>> 1) ^^^ 0xedb88320 else r >>> 1

def crcByte (r : UInt32) (b : UInt8) : UInt32 := Nat.repeat crcBit 8 (r ^^^ b.toUInt32)

def crc (bytes : ByteArray) : UInt32 := ~~~ (bytes.foldl crcByte 0xffffffff)

/-- The sum of the bytes from 1 on, and the sum of these sums, both modulo the largest prime of 16 bits. -/
def adler (bytes : ByteArray) : UInt32 :=
  let (a, b) := bytes.foldl (fun (a, b) byte =>
    let a := (a + byte.toUInt32) % 65521
    (a, (b + a) % 65521)) (1, 0)
  (b <<< 16) ||| a

end PixelShader.Png
