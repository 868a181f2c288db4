import PixelShader.Png.Deflate
import PixelShader.Texture.Picture
/-!
# Writing a picture as PNG

Eight bits for each of the four channels, and no filter.  A picture repeats itself from one pixel to the next and from one
row to the next, so these are the distances at which it is compressed.
-/
namespace PixelShader.Png

def signature : ByteArray := ⟨#[0x89, 0x50, 0x4e, 0x47, 0x0d, 0x0a, 0x1a, 0x0a]⟩

/-! ## Chunks -/

def chunk (name : String) (data : ByteArray) : ByteArray :=
  let body := name.toUTF8 ++ data
  bigEndian (UInt32.ofNat data.size) ++ body ++ bigEndian (crc body)

def maxChunkLength : Nat := 0x7fffffff

/-- Data in as many chunks of one name as it takes. -/
def chunks (name : String) (data : ByteArray) : ByteArray :=
  (List.range ((data.size + maxChunkLength - 1) / maxChunkLength)).foldl (fun out k =>
    out ++ chunk name (data.extract (k * maxChunkLength) ((k + 1) * maxChunkLength))) .empty

/-! ## Rows -/

/-- The rows of a picture, each behind a byte that names no filter. -/
def scanlines (p : Picture) : ByteArray :=
  (List.range p.pixels.size).foldl (fun out n =>
    let out := if n % p.width.toNat = 0 then out.push 0 else out
    let c := p.pixels.getD n default
    (((out.push c.red).push c.green).push c.blue).push c.alpha) .empty

/-- The distances from a byte to the same one of the pixel before and of the row before. -/
def repeatDistances (p : Picture) : List Nat := [4, 4 * p.width.toNat + 1]

def header (p : Picture) : ByteArray := bigEndian p.width ++ bigEndian p.height ++ ⟨#[8, 6, 0, 0, 0]⟩

def encode (p : Picture) : ByteArray :=
  signature ++ chunk "IHDR" (header p) ++ chunks "IDAT" (deflate (repeatDistances p) (scanlines p))
    ++ chunk "IEND" .empty

end PixelShader.Png
