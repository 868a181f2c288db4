/-!
# Paths

A path is a list of names with slashes between them.  Slashes in a row count as one, a dot stands for the directory it is
in and two dots for the one above.
-/
namespace PixelShader.CommandLine

def maxNameLength : Nat := 255

def maxPathLength : Nat := 4095

def pathNames (path : String) : List String := ((path.toList.splitOn '/').map String.ofList).filter (· != "")

def isAbsolute (path : String) : Bool := path.startsWith "/"

def endsInSlash (path : String) : Bool := path.endsWith "/"

def fileName? (path : String) : Option String :=
  match ((pathNames path).filter (· != ".")).getLast? with
  | some ".." => none
  | name => name

/-- What stands behind the last dot of a file's name, if something stands before it. -/
def extension? (path : String) : Option String := do
  let reversed := (← fileName? path).toList.reverse
  let stem := (reversed.dropWhile (· != '.')).drop 1
  if stem.isEmpty then none else some (String.ofList (reversed.takeWhile (· != '.')).reverse)

end PixelShader.CommandLine
