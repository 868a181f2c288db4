import PixelShader.Backend
import PixelShader.CommandLine.Constant
import PixelShader.Text.Plain
/-!
# Reading the arguments

An argument that begins with `--` is a switch by its long name, one that begins with `-` a cluster of short names, of
which the last may be followed by its value, and any other one a value or the next place.  Behind a lone `--` all
arguments are places.

A value is judged when the next argument that needs it settled comes along, or at the end.  An argument that is not
known at all is reported at once, before a pending value is judged.
-/
namespace PixelShader.CommandLine

/-! ## The vocabulary -/

inductive Switch where
  | dump
  | interpreter
  | trace
  | legacyRowClamp
  deriving DecidableEq, Inhabited

namespace Switch

def all : List Switch := [dump, interpreter, trace, legacyRowClamp]

def name : Switch → String
  | dump => "dump"
  | interpreter => "interpreter"
  | trace => "trace"
  | legacyRowClamp => "legacy-row-clamp"

def ofName? (name : String) : Option Switch := all.find? (·.name == name)

def ofLetter? : Char → Option Switch
  | 'd' => some dump
  | 'i' => some interpreter
  | 't' => some trace
  | _ => none

def usage (s : Switch) : String := "--" ++ s.name

end Switch

inductive Setting where
  | scalar
  | pair
  deriving DecidableEq, Inhabited

namespace Setting

def ofLetter? : Char → Option Setting
  | 'c' => some scalar
  | 'p' => some pair
  | _ => none

def usage : Setting → String
  | scalar => "-c <IDX=VALUE>"
  | pair => "-p <IDX=X,Y>"

end Setting

/-- What an argument stands for by its place. -/
inductive Place where
  | shader
  | input
  | output
  deriving DecidableEq, Inhabited

namespace Place

def usage : Place → String
  | shader => "<SHADER>"
  | input => "[INPUT]"
  | output => "[OUTPUT]"

def ofCount? : Nat → Option Place
  | 0 => some shader
  | 1 => some input
  | 2 => some output
  | _ => none

end Place

inductive UsageFault where
  | unexpectedArgument (argument : String)
  | unexpectedValue (value : String) (switch : Switch)
  | helpValue (value : String)
  | repeatedSwitch (switch : Switch)
  | noValue (usage : String)
  | invalidValue (value : String) (setting : Setting) (cause : ArgumentFault)
  | missingPlaces
  deriving DecidableEq, Inhabited

/-- The wording of a fault.  What the user typed stands in it as plain text. -/
def UsageFault.message : UsageFault → String
  | unexpectedArgument argument => "unexpected argument '" ++ Text.plain argument ++ "' found"
  | unexpectedValue value switch =>
    "unexpected value '" ++ Text.plain value ++ "' for '" ++ switch.usage ++ "' found; no more were expected"
  | helpValue value => "unexpected value '" ++ Text.plain value ++ "' for '--help' found; no more were expected"
  | repeatedSwitch switch => "the argument '" ++ switch.usage ++ "' cannot be used multiple times"
  | noValue usage => "a value is required for '" ++ usage ++ "' but none was supplied"
  | invalidValue value setting cause =>
    "invalid value '" ++ Text.plain value ++ "' for '" ++ setting.usage ++ "': " ++ cause.message
  | missingPlaces => "the following required arguments were not provided:"

inductive Stop where
  | help
  | usage (fault : UsageFault)
  deriving DecidableEq, Inhabited

/-! ## Options -/

structure Options where
  switches : List Switch := []
  scalars : List (UInt32 × Lane) := []
  pairs : List (UInt32 × Lane × Lane) := []
  shader : Option String := none
  input : Option String := none
  output : Option String := none
  deriving DecidableEq, Inhabited

namespace Options

def has (o : Options) (s : Switch) : Bool := o.switches.contains s

def switch (o : Options) (s : Switch) : Except Stop Options :=
  if o.has s then .error (.usage (.repeatedSwitch s)) else .ok { o with switches := s :: o.switches }

def set (o : Options) (s : Setting) (value : String) : Except Stop Options :=
  match s with
  | .scalar =>
    match readScalar value.toList with
    | .error cause => .error (.usage (.invalidValue value s cause))
    | .ok constant => .ok { o with scalars := o.scalars ++ [constant] }
  | .pair =>
    match readPair value.toList with
    | .error cause => .error (.usage (.invalidValue value s cause))
    | .ok constant => .ok { o with pairs := o.pairs ++ [constant] }

def put (o : Options) (p : Place) (value : String) : Except Stop Options :=
  if value.isEmpty then .error (.usage (.noValue p.usage))
  else
    match p with
    | .shader => .ok { o with shader := some value }
    | .input => .ok { o with input := some value }
    | .output => .ok { o with output := some value }

end Options

/-! ## Reading -/

inductive Pending where
  | setting (s : Setting) (value : Option String)
  | place (p : Place) (value : String)
  deriving DecidableEq, Inhabited

structure Scan where
  options : Options := {}
  pending : Option Pending := none
  places : Nat := 0
  literal : Bool := false

namespace Scan

def settle (s : Scan) : Except Stop Scan :=
  match s.pending with
  | none => .ok s
  | some (.setting g none) => .error (.usage (.noValue g.usage))
  | some (.setting g (some value)) => return { s with options := ← s.options.set g value, pending := none }
  | some (.place p value) => return { s with options := ← s.options.put p value, pending := none }

/-- Help is given when nothing before it is at fault. -/
def help (s : Scan) : Except Stop Scan := do
  let _ ← s.settle
  throw .help

def switch (s : Scan) (w : Switch) : Except Stop Scan := do
  let s ← s.settle
  return { s with options := ← s.options.switch w }

def cluster (s : Scan) : List Char → Except Stop Scan
  | [] => .ok s
  | c :: rest =>
    match Switch.ofLetter? c, Setting.ofLetter? c with
    | some w, _ => do cluster (← s.switch w) rest
    | none, some g => do
      let s ← s.settle
      match rest with
      | [] => return { s with pending := some (.setting g none) }
      | '=' :: value => return { s with options := ← s.options.set g (String.ofList value) }
      | value => return { s with options := ← s.options.set g (String.ofList value) }
    | none, none =>
      if c = 'h' then s.help else .error (.usage (.unexpectedArgument (String.ofList ['-', c])))

/-- A long name, with a value behind an equals sign or without one. -/
def long (s : Scan) (cs : List Char) : Except Stop Scan :=
  let (name, value) :=
    match splitAt '=' cs with
    | some (name, value) => (String.ofList name, some (String.ofList value))
    | none => (String.ofList cs, none)
  match Switch.ofName? name, value with
  | some w, none => s.switch w
  | some w, some value => .error (.usage (.unexpectedValue value w))
  | none, value =>
    if name = "help" then
      match value with
      | none => s.help
      | some value => .error (.usage (.helpValue value))
    else .error (.usage (.unexpectedArgument ("--" ++ name)))

def plain (s : Scan) (argument : String) : Except Stop Scan :=
  match s.literal, s.pending with
  | false, some (.setting g none) => .ok { s with pending := some (.setting g (some argument)) }
  | _, _ =>
    match Place.ofCount? s.places with
    | none => .error (.usage (.unexpectedArgument argument))
    | some p => do
      let s ← s.settle
      return { s with pending := some (.place p argument), places := s.places + 1 }

def argument (s : Scan) (a : String) : Except Stop Scan :=
  match s.literal, a.toList with
  | false, ['-', '-'] => .ok { s with literal := true }
  | false, '-' :: '-' :: cs => s.long cs
  | false, '-' :: c :: cs => s.cluster (c :: cs)
  | _, _ => s.plain a

end Scan

/-! ## Requests -/

structure RenderTask where
  input : String
  output : String
  backend : Backend
  rowClamp : RowClamp
  scalars : List (UInt32 × Lane)
  pairs : List (UInt32 × Lane × Lane)
  deriving DecidableEq, Inhabited

inductive Task where
  | dump
  | render (task : RenderTask)
  deriving DecidableEq, Inhabited

structure Request where
  shader : String
  task : Task
  deriving DecidableEq, Inhabited

namespace Options

def backend (o : Options) : Backend := if o.has .interpreter then .interpreter else .compiler

def rowClamp (o : Options) : RowClamp := if o.has .legacyRowClamp then .legacyWidth else .height

def renderTask (o : Options) (input output : String) : RenderTask :=
  { input, output, backend := o.backend, rowClamp := o.rowClamp, scalars := o.scalars, pairs := o.pairs }

/-- What the options ask for.  Only a dump does without pictures. -/
def request (o : Options) : Except Stop Request :=
  match o.has .dump, o.shader, o.input, o.output with
  | true, some shader, _, _ => .ok ⟨shader, .dump⟩
  | false, some shader, some input, some output => .ok ⟨shader, .render (o.renderTask input output)⟩
  | _, _, _, _ => .error (.usage .missingPlaces)

end Options

def readOptions (arguments : List String) : Except Stop Options := do
  let s ← arguments.foldlM Scan.argument {}
  return (← s.settle).options

def readArguments (arguments : List String) : Except Stop Request := do
  (← readOptions arguments).request

end PixelShader.CommandLine
