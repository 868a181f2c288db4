import PixelShader.Bindings
import PixelShader.Raster
/-!
# Renderings

To render is to shade every pixel of the bound output and paint it with the colour.  A rendering tells what became of
the bindings, which colours were painted, in order and before they were packed into texels, and how it ended.
-/
namespace PixelShader

structure Paint where
  x : UInt32
  y : UInt32
  color : Quad
  deriving DecidableEq, Inhabited

def Image.paint (i : Image) (p : Paint) : Image := i.writeColor p.x p.y p.color

structure Rendering where
  bindings : Bindings
  paints : Array Paint
  outcome : Except Fault Unit

def Rendering.refused (b : Bindings) (fault : Fault) : Rendering := ⟨b, #[], .error fault⟩

section
variable {σ : Type} (shade : Pixel → EStateM Fault σ Quad)

/-- Shades pixels in order, behind those already painted, until one cannot be shaded.  Each pixel finds the state that
the one before it left. -/
def shadePixels (state : σ) (done : Array Paint) : List Pixel → Array Paint × Except Fault Unit
  | [] => (done, .ok ())
  | p :: rest =>
    match (shade p).run state with
    | .error fault _ => (done, .error fault)
    | .ok color state => shadePixels state (done.push ⟨p.x, p.y, color⟩) rest

/-- Shades the whole of an image, which is the bound output. -/
def Bindings.draw (b : Bindings) (image : Image) (state : σ) : Rendering :=
  let (paints, outcome) := shadePixels shade state #[] (Walk.pixels image.width image.height)
  ⟨{ b with output := some (paints.foldl Image.paint image) }, paints, outcome⟩

end
end PixelShader
