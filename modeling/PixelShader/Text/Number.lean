import PixelShader.Lane
/-!
# Reading numbers

An index is a decimal number of 32 bits with an optional plus sign.  A lane is read from a decimal with an optional
sign, point and exponent, rounded to the nearest with ties to even, or from the names of the infinities and of NaN in
letters of either case.
-/
namespace PixelShader.Text

inductive NumberFault where
  | emptyIndex
  | invalidDigit
  | indexTooLarge
  | emptyLane
  | invalidLane
  deriving DecidableEq, Inhabited

def NumberFault.message : NumberFault → String
  | emptyIndex => "cannot parse integer from empty string"
  | invalidDigit => "invalid digit found in string"
  | indexTooLarge => "number too large to fit in target type"
  | emptyLane => "cannot parse float from empty string"
  | invalidLane => "invalid float literal"

def isDigit (c : Char) : Bool := '0' ≤ c && c ≤ '9'

def digitValue (c : Char) : Nat := c.toNat - '0'.toNat

/-! ## Indices -/

/-- Reads digits from left to right.  The first one that is no digit or leaves 32 bits decides. -/
def readDigits (value : Nat) : List Char → Except NumberFault UInt32
  | [] => .ok (UInt32.ofNat value)
  | c :: rest =>
    if !isDigit c then .error .invalidDigit
    else if 0x100000000 ≤ value * 10 + digitValue c then .error .indexTooLarge
    else readDigits (value * 10 + digitValue c) rest

def readIndex (cs : List Char) : Except NumberFault UInt32 :=
  match cs with
  | [] => .error .emptyIndex
  | ['+'] => .error .invalidDigit
  | '+' :: rest => readDigits 0 rest
  | cs => readDigits 0 cs

/-! ## Lanes -/

def digitsValue (cs : List Char) : Nat := cs.foldl (fun n c => n * 10 + digitValue c) 0

def spanDigits (cs : List Char) : List Char × List Char := (cs.takeWhile isDigit, cs.dropWhile isDigit)

def readExponent : List Char → Option Int
  | [] => some 0
  | e :: rest =>
    if e != 'e' && e != 'E' then none
    else
      let (negative, digits) :=
        match rest with
        | '+' :: digits => (false, digits)
        | '-' :: digits => (true, digits)
        | digits => (false, digits)
      if digits.isEmpty || !digits.all isDigit then none
      else some (if negative then -(digitsValue digits : Int) else digitsValue digits)

/-- Reads `digits . digits exponent` as a number and a power of ten.  There is a digit on at least one side of the
point. -/
def readScientific (cs : List Char) : Option (Nat × Int) :=
  let (whole, rest) := spanDigits cs
  let (fraction, rest) :=
    match rest with
    | '.' :: rest => spanDigits rest
    | rest => ([], rest)
  if whole.isEmpty && fraction.isEmpty then none
  else (readExponent rest).map fun e => (digitsValue (whole ++ fraction), e - (fraction.length : Int))

/-- The lane nearest to `digits * 10 ^ power`.  Powers so far out that every digit is lost are settled first. -/
def nearestLane (digits : Nat) (power : Int) : Lane :=
  if digits = 0 then .zero
  else
    let order := power + ((Nat.toDigits 10 digits).length : Int)
    if 39 < order then ⟨0x7f800000⟩
    else if order < -45 then .zero
    else .ofValue (Float32.ofScientific digits (power < 0) power.natAbs)

def readSpecial (cs : List Char) : Option Lane :=
  let name := String.ofList (cs.map Char.toLower)
  if name = "inf" ∨ name = "infinity" then some ⟨0x7f800000⟩
  else if name = "nan" then some ⟨0x7fc00000⟩
  else none

def readMagnitude (cs : List Char) : Option Lane :=
  match readScientific cs with
  | some (digits, power) => some (nearestLane digits power)
  | none => readSpecial cs

def readLane (cs : List Char) : Except NumberFault Lane :=
  let (negative, magnitude) :=
    match cs with
    | '+' :: rest => (false, rest)
    | '-' :: rest => (true, rest)
    | cs => (false, cs)
  if cs.isEmpty then .error .emptyLane
  else
    match readMagnitude magnitude with
    | none => .error .invalidLane
    | some a => .ok (if negative then -a else a)

end PixelShader.Text
