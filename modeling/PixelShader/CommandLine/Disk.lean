import PixelShader.CommandLine.Files
/-!
# A disk in memory

The files in a working directory and in the directories below it, by their names on the way.  A directory is there when
a file is in it, and the working directory always is.  Outside of it there are only directories, without files that
could be found, and what is saved there is not kept.
-/
namespace PixelShader.CommandLine

structure Disk where
  files : List (List String × ByteArray) := []

inductive Location where
  | inside (names : List String)
  | outside
  deriving DecidableEq, Inhabited

namespace Location

def start (path : String) : Location := if isAbsolute path then outside else inside []

def above : Location → Location
  | inside [] | outside => outside
  | inside names => inside names.dropLast

end Location

namespace Disk

/-! ## Walking -/

def isDirectory (d : Disk) : Location → Bool
  | .inside names => names.isEmpty || d.files.any fun f => names.isPrefixOf f.1 && f.1 != names
  | .outside => true

def holds (d : Disk) (names : List String) : Bool := d.files.any fun f => names.isPrefixOf f.1

def enter (d : Disk) (l : Location) (name : String) : Except FileFault Location :=
  if name = "." then .ok l
  else if name = ".." then .ok l.above
  else if maxNameLength < name.utf8ByteSize then .error .nameTooLong
  else
    match l with
    | .outside => .error .notFound
    | .inside names => if d.holds (names ++ [name]) then .ok (.inside (names ++ [name])) else .error .notFound

def walk (d : Disk) (l : Location) : List String → Except FileFault Location
  | [] => .ok l
  | name :: rest => do
    if !d.isDirectory l then throw .notDirectory
    d.walk (← d.enter l name) rest

/-! ## Files -/

def find (d : Disk) (path : String) : Except FileFault ByteArray := do
  if maxPathLength < path.utf8ByteSize then throw .nameTooLong
  let l ← d.walk (.start path) (pathNames path)
  if d.isDirectory l then throw .isDirectory
  if endsInSlash path then throw .notDirectory
  match l with
  | .outside => throw .isDirectory
  | .inside names =>
    match d.files.lookup names with
    | some content => return content
    | none => throw .notFound

def keep (d : Disk) (names : List String) (content : ByteArray) : Disk :=
  ⟨d.files.filter (·.1 != names) ++ [(names, content)]⟩

/-- Puts a file in a directory under a name that is not one of the dots. -/
def putIn (d : Disk) (l : Location) (name : String) (content : ByteArray) : Except FileFault Disk :=
  if maxNameLength < name.utf8ByteSize then .error .nameTooLong
  else
    match l with
    | .outside => .ok d
    | .inside names =>
      if d.isDirectory (.inside (names ++ [name])) then .error .isDirectory else .ok (d.keep (names ++ [name]) content)

/-- Puts a file in an existing directory, over an older one of its name. -/
def put (d : Disk) (path : String) (content : ByteArray) : Except FileFault Disk := do
  if maxPathLength < path.utf8ByteSize then throw .nameTooLong
  let l ← d.walk (.start path) (pathNames path).dropLast
  if !d.isDirectory l then throw .notDirectory
  match (pathNames path).getLast? with
  | none | some "." | some ".." => throw .isDirectory
  | some name => if endsInSlash path then throw .isDirectory else d.putIn l name content

def asFiles : Files (StateM Disk) where
  read path := fun d => (d.find path, d)
  write path content := fun d =>
    match d.put path content with
    | .error fault => (.error fault, d)
    | .ok d => (.ok (), d)

end Disk
end PixelShader.CommandLine
