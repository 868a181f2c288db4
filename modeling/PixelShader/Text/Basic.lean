import PixelShader.Text.Glyphless
/-!
# Hexadecimal digits, blanks and quotes

Blanks are the characters with the Unicode property of white space.  A text that is quoted in a message stands between
double quotes; quotes and backslashes in it are escaped, and so are the characters that would not show.
-/
namespace PixelShader.Text

/-! ## Hexadecimal digits -/

def hex (n : Nat) : String := String.ofList (Nat.toDigits 16 n)

def hexPadded (width n : Nat) : String :=
  let cs := Nat.toDigits 16 n
  String.ofList (List.replicate (width - cs.length) '0' ++ cs)

/-! ## Blanks -/

def isBlank (c : Char) : Bool :=
  let n := c.toNat
  (0x9 ≤ n && n ≤ 0xd) || n == 0x20 || n == 0x85 || n == 0xa0 || n == 0x1680 || (0x2000 ≤ n && n ≤ 0x200a)
    || n == 0x2028 || n == 0x2029 || n == 0x202f || n == 0x205f || n == 0x3000

def trim (cs : List Char) : List Char :=
  ((cs.dropWhile isBlank).reverse.dropWhile isBlank).reverse

/-! ## Quotes -/

def escape (c : Char) : String :=
  match c with
  | '"' => "\\\""
  | '\\' => "\\\\"
  | '\n' => "\\n"
  | '\r' => "\\r"
  | '\t' => "\\t"
  | '\x00' => "\\0"
  | c => if isGlyphless c then "\\u\x7b" ++ hex c.toNat ++ "\x7d" else String.singleton c

def quote (cs : List Char) : String := "\"" ++ String.join (cs.map escape) ++ "\""

end PixelShader.Text
