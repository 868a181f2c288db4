import PixelShader.Text.Basic
import PixelShader.Text.Number
/-!
# Constants on the command line

`-c IDX=VALUE` gives a constant one value in all lanes and `-p IDX=X,Y` two values.  Blanks around the parts do not
count.  A message quotes the part it is about as it was given.
-/
namespace PixelShader.CommandLine

open Text

inductive ArgumentFault where
  | noAssignment (text : List Char)
  | badIndex (text : List Char) (cause : NumberFault)
  | noPair (text : List Char)
  | badNumber (text : List Char) (cause : NumberFault)
  deriving DecidableEq, Inhabited

def ArgumentFault.message : ArgumentFault → String
  | noAssignment text => "expected IDX=VALUE, got " ++ quote text
  | badIndex text cause => "invalid register index " ++ quote text ++ ": " ++ cause.message
  | noPair text => "expected IDX=X,Y, got " ++ quote text
  | badNumber text cause => "invalid number " ++ quote text ++ ": " ++ cause.message

def splitAt (separator : Char) (cs : List Char) : Option (List Char × List Char) :=
  match cs.dropWhile (· != separator) with
  | [] => none
  | _ :: after => some (cs.takeWhile (· != separator), after)

def readAssignment (cs : List Char) : Except ArgumentFault (UInt32 × List Char) :=
  match splitAt '=' cs with
  | none => .error (.noAssignment cs)
  | some (index, value) =>
    match readIndex (trim index) with
    | .error cause => .error (.badIndex index cause)
    | .ok i => .ok (i, value)

def readNumber (cs : List Char) : Except ArgumentFault Lane := (readLane (trim cs)).mapError (.badNumber cs)

def readScalar (cs : List Char) : Except ArgumentFault (UInt32 × Lane) := do
  let (index, value) ← readAssignment cs
  return (index, ← readNumber value)

def readPair (cs : List Char) : Except ArgumentFault (UInt32 × Lane × Lane) := do
  let (index, value) ← readAssignment cs
  match splitAt ',' value with
  | none => throw (.noPair cs)
  | some (x, y) => return (index, ← readNumber x, ← readNumber y)

end PixelShader.CommandLine
