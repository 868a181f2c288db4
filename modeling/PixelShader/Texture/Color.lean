import PixelShader.Lane.Integer
import PixelShader.Quad
/-!
# Colours and texels

A texel is a colour in 32 bits, eight for each channel, red lowest.  Packing clamps a lane to the range from 0 to 1 and
rounds it to the nearest of 256 levels, a half going up; a NaN is level 0.
-/
namespace PixelShader

abbrev Texel := UInt32

namespace Texel

def level (a : Lane) : UInt32 := UInt32.ofNat ((a.clamp .zero .one * .channelMax).toNatRounded)

def pack (color : Quad) : Texel :=
  level color.x ||| (level color.y <<< 8) ||| (level color.z <<< 16) ||| (level color.w <<< 24)

/-- The channel that starts at a bit, as a lane from 0 to 1. -/
def channel (t : Texel) (low : UInt32) : Lane := .ofUInt32 ((t >>> low) &&& 0xff) / .channelMax

def unpack (t : Texel) : Quad := ⟨channel t 0, channel t 8, channel t 16, channel t 24⟩

end Texel
end PixelShader
