import PixelShader.Interpreter
import PixelShader.Kernel.Compile
/-!
# Rendering with either strategy
-/
namespace PixelShader

inductive Backend where
  | interpreter
  | compiler
  deriving DecidableEq, Inhabited

def Backend.name : Backend → String
  | interpreter => "interpreter"
  | compiler => "compiler"

def Bindings.render (b : Bindings) (backend : Backend) (p : Program) : Rendering :=
  match backend with
  | .interpreter =>
    match Interpreter.ofProgram p with
    | .error fault => .refused b fault
    | .ok i => i.run b
  | .compiler =>
    match Kernel.compile p with
    | .error fault => .refused b fault
    | .ok k => k.run b

end PixelShader
