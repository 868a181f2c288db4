import PixelShader.CommandLine.Run
/-!
# The program

The command over the files of the system.
-/
namespace PixelShader.CommandLine

/-- The number of an error; some come negated. -/
def errorNumber (code : UInt32) : UInt32 := min code (0 - code)

def fileFault : IO.Error → FileFault
  | .noFileOrDirectory .. => .notFound
  | .inappropriateType _ code _ => if errorNumber code = 20 then .notDirectory else .isDirectory
  | .invalidArgument _ code details => if errorNumber code = 36 then .nameTooLong else .other details
  | .permissionDenied _ code _ => .other ("Permission denied (os error " ++ toString (errorNumber code) ++ ")")
  | e => .other (toString e)

def readFile (path : String) : IO (Except FileFault ByteArray) := do
  try return .ok (← IO.FS.readBinFile path)
  catch e => return .error (fileFault e)

def writeFile (path : String) (content : ByteArray) : IO (Except FileFault Unit) := do
  try
    IO.FS.writeBinFile path content
    return .ok ()
  catch e => return .error (fileFault e)

def systemFiles : Files IO where
  read := readFile
  write := writeFile

end PixelShader.CommandLine

def main (arguments : List String) : IO UInt32 := do
  let outcome ← PixelShader.CommandLine.run PixelShader.CommandLine.systemFiles arguments
  IO.print outcome.output
  IO.eprint outcome.errors
  return outcome.code
