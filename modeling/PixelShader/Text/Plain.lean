/-!
# Text without control sequences

What a user typed may hold sequences that command a terminal.  Shown as plain text it loses them: an escape character
opens a sequence, whose form says where it ends, and of the control characters outside of sequences only those that
move to a new place on the page are shown.

A line break, tab or form feed that interrupts a sequence is shown, and so is what follows it, up to the next control
character; from there on the interrupted sequence goes on.
-/
namespace PixelShader.Text

inductive Sequence where
  | none
  | escape
  | intermediate
  | control
  | deviceEntry
  | deviceParameter
  | deviceIntermediate
  | string
  /-- A command to the operating system, which a bell ends. -/
  | command
  deriving DecidableEq, Inhabited

def movesOnPage (c : Char) : Bool := c == '\t' || c == '\n' || c == '\x0c' || c == '\r'

def isShown (c : Char) : Bool := (0x20 ≤ c.toNat && c.toNat != 0x7f) || movesOnPage c

/-- Whether a byte of the character is the terminator of strings. -/
def hasTerminator (c : Char) : Bool := (String.utf8EncodeChar c).contains 0x9c

namespace Sequence

def afterEscape (c : Char) : Sequence :=
  match c with
  | '[' => control
  | ']' => command
  | 'P' => deviceEntry
  | 'X' | '^' | '_' => string
  | c =>
    if 0x20 ≤ c.toNat ∧ c.toNat ≤ 0x2f then intermediate
    else if 0x30 ≤ c.toNat ∧ c.toNat ≤ 0x7e then none
    else escape

/-- The sequence after a character.  Two control characters cancel every sequence, and an escape opens a new one. -/
def next (s : Sequence) (c : Char) : Sequence :=
  let n := c.toNat
  if n = 0x18 ∨ n = 0x1a then none
  else if n = 0x1b then escape
  else
    match s with
    | none => none
    | escape => afterEscape c
    | intermediate => if 0x30 ≤ n ∧ n ≤ 0x7e then none else intermediate
    | control => if 0x40 ≤ n ∧ n ≤ 0x7e then none else control
    | deviceEntry =>
      if 0x20 ≤ n ∧ n ≤ 0x2f then deviceIntermediate
      else if 0x30 ≤ n ∧ n ≤ 0x3f then deviceParameter
      else if 0x40 ≤ n ∧ n ≤ 0x7e then string
      else deviceEntry
    | deviceParameter =>
      if 0x20 ≤ n ∧ n ≤ 0x2f then deviceIntermediate
      else if 0x3c ≤ n ∧ n ≤ 0x7e then string
      else deviceParameter
    | deviceIntermediate => if 0x30 ≤ n ∧ n ≤ 0x7e then string else deviceIntermediate
    | string => if hasTerminator c then none else string
    | command => if n = 0x07 then none else command

def shows (s : Sequence) (c : Char) : Bool :=
  match s with
  | none => isShown c
  | escape | intermediate | control => movesOnPage c
  | _ => false

end Sequence

/-- The characters that are shown.  While `showing`, an open sequence is interrupted; a character beyond ASCII ends it. -/
def plainFrom (showing : Bool) (s : Sequence) : List Char → List Char
  | [] => []
  | c :: cs =>
    if showing && isShown c then c :: plainFrom true (if c.toNat < 0x80 then s else .none) cs
    else if s.shows c then c :: plainFrom true (s.next c) cs
    else plainFrom false (s.next c) cs

def plain (text : String) : String := String.ofList (plainFrom false .none text.toList)

end PixelShader.Text
