import PixelShader.Bytecode.Decode
import PixelShader.CommandLine.Files
import PixelShader.CommandLine.Options
/-!
# The command

The command decodes a shader and prints it, or renders a picture with it: the input is bound to the first sampler, the
output has the same size, and the constants of the command line are bound, those of one value first.  A failure names
the step that failed and its causes; nothing is saved unless all steps before it went well.
-/
namespace PixelShader.CommandLine

structure Outcome where
  code : UInt32
  output : String := ""
  errors : String := ""
  deriving DecidableEq, Inhabited

def causesText : List String → String
  | [] => ""
  | [cause] => "\n\nCaused by:\n    " ++ cause
  | causes =>
    "\n\nCaused by:" ++ String.join (causes.zipIdx.map fun e => "\n    " ++ toString e.2 ++ ": " ++ e.1)

def failure (step : String) (causes : List String) : Outcome :=
  { code := 1, errors := "Error: " ++ step ++ causesText causes ++ "\n" }

def helpLines : List String :=
  ["Run a compiled ps_2_0 pixel shader over a PNG image on the CPU.",
    "",
    "Usage: ps20 [OPTIONS] <SHADER> [INPUT] [OUTPUT]",
    "",
    "Arguments:",
    "  <SHADER>  Compiled shader bytecode",
    "  [INPUT]   Input PNG, bound to sampler s0",
    "  [OUTPUT]  Output PNG, same size as the input",
    "",
    "Options:",
    "  -d, --dump              Print the disassembly and exit",
    "  -i, --interpreter       Use the interpreter instead of the compiled kernel",
    "  -t, --trace             Log every instruction and sample (very verbose)",
    "  -c <IDX=VALUE>          Set constant register c<IDX> to VALUE in all four lanes",
    "  -p <IDX=X,Y>            Set constant register c<IDX> to (X, Y, 0, 0)",
    "      --legacy-row-clamp  Clamp sampled rows against the texture width instead of its height",
    "  -h, --help              Print help"]

def helpText : String := String.join (helpLines.map (· ++ "\n"))

/-- Binds what a task is given.  A pair goes over a single value. -/
def RenderTask.bind (t : RenderTask) (input : Image) : Binder Unit := do
  t.scalars.forM fun c => Binder.setConstant c.1 (.splat c.2)
  t.pairs.forM fun c => Binder.setConstant c.1 (.pair c.2.1 c.2.2)
  Binder.setSampler 0 ⟨input.surface, t.rowClamp⟩
  Binder.setOutput 0 (.blank input.width input.height)

section
variable {m : Type → Type} [Monad m] (files : Files m)

def saveImage (path : String) (image : Image) : m Outcome := do
  match ← files.savePicture path (.ofImage image) with
  | .error fault => return failure ("write " ++ path) fault.messages
  | .ok _ => return { code := 0 }

def renderPicture (shader : String) (t : RenderTask) (p : Program) : m Outcome := do
  match ← files.loadPicture t.input with
  | .error fault => return failure ("load " ++ t.input) fault.messages
  | .ok picture =>
    match (t.bind (.ofPicture picture)).perform {} with
    | (.error fault, _) => return failure fault.message []
    | (.ok _, b) =>
      let r := b.render t.backend p
      match r.outcome, (Binder.takeOutput 0).perform r.bindings with
      | .error fault, _ => return failure ("render " ++ shader ++ " with the " ++ t.backend.name) fault.messages
      | .ok _, (.error fault, _) => return failure fault.message []
      | .ok _, (.ok image, _) => saveImage files t.output image

def perform (r : Request) : m Outcome := do
  match ← files.read r.shader with
  | .error fault => return failure ("read " ++ r.shader) [fault.message]
  | .ok content =>
    match Bytecode.decode content.data.toList, r.task with
    | .error fault, _ => return failure ("decode " ++ r.shader) (Fault.malformed fault).messages
    | .ok p, .dump => return { code := 0, output := p.disassembly }
    | .ok p, .render t => renderPicture files r.shader t p

def run (arguments : List String) : m Outcome :=
  match readArguments arguments with
  | .error .help => return { code := 0, output := helpText }
  | .error (.usage fault) => return { code := 2, errors := "error: " ++ fault.message ++ "\n" }
  | .ok request => perform files request

end
end PixelShader.CommandLine
