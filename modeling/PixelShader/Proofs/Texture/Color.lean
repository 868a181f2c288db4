import Mathlib
import PixelShader.Proofs.Bytecode.Grammar
import PixelShader.Proofs.Lane.Number
import PixelShader.Proofs.Texture.Image
/-!
# Packing gives back what was unpacked

A level divided by 255 is no exact number, but it is multiplied by 255 and rounded again before it is packed, which
leads back to the level (`level_channel`).  So a texel that is unpacked and packed stays as it is.  And whatever the
bits of a lane are, its level fits the eight bits of its channel (`toNat_level`), so that packing never mixes channels.
-/
namespace PixelShader
namespace Texel

/-! ## Unpacked and packed again -/

theorem level_levels :
    (List.range 256).all (fun n => level (.ofUInt32 (UInt32.ofNat n) / .channelMax) = UInt32.ofNat n) = true := by
  decide +kernel

theorem level_byte (b : UInt8) : level (.ofUInt32 b.toUInt32 / .channelMax) = b.toUInt32 := by
  have hmem : b.toNat ∈ List.range 256 := List.mem_range.2 b.toNat_lt
  rw [← UInt32.ofNat_uInt8ToNat]
  exact of_decide_eq_true (List.all_eq_true.1 level_levels _ hmem)

theorem level_channel (t : Texel) (low : UInt32) : level (channel t low) = (t >>> low).toUInt8.toUInt32 := by
  have hbyte : (t >>> low) &&& 0xff = (t >>> low).toUInt8.toUInt32 := by
    apply UInt32.toNat_inj.1
    rw [UInt32.toNat_and, UInt8.toNat_toUInt32, UInt32.toNat_toUInt8]
    exact Nat.and_two_pow_sub_one_eq_mod _ 8
  rw [channel, hbyte, level_byte]

/-- **A texel that is unpacked and packed again is the same.** -/
@[simp] theorem pack_unpack (t : Texel) : pack (unpack t) = t := by
  have h0 : (t >>> 0).toUInt8 = t.toUInt8 := by rw [UInt32.shiftRight_zero]
  calc pack (unpack t) = Bytecode.word (t >>> 0).toUInt8 (t >>> 8).toUInt8 (t >>> 16).toUInt8 (t >>> 24).toUInt8 := by
        rw [pack, unpack, level_channel, level_channel, level_channel, level_channel]
        rfl
    _ = t := by rw [h0, Bytecode.word_bytes]

theorem unpack_zero : unpack 0 = .zero := by decide +kernel

/-! ## Channels are apart -/

def byte (t : Texel) (k : Component) : UInt8 := (t >>> UInt32.ofNat (8 * k.code)).toUInt8

theorem toNatRounded_clamp_le (a : Lane) : (a.clamp .zero .one * .channelMax).toNatRounded ≤ 255 := by
  obtain ⟨hlow, hhigh⟩ := a.clamp_bounds
  exact Lane.toNatRounded_mul_channelMax_le hlow hhigh

theorem toNat_level (a : Lane) : (level a).toNat = (a.clamp .zero .one * .channelMax).toNatRounded := by
  have hle := toNatRounded_clamp_le a
  rw [level, UInt32.toNat_ofNat_of_lt' (by rw [UInt32.size]; omega)]

theorem level_le (a : Lane) : level a ≤ 255 := by
  rw [UInt32.le_iff_toNat_le, toNat_level]
  exact toNatRounded_clamp_le a

theorem toUInt32_toUInt8_level (a : Lane) : (level a).toUInt8.toUInt32 = level a := by
  have hle : (level a).toNat ≤ 255 := level_le a
  apply UInt32.toNat_inj.1
  rw [UInt8.toNat_toUInt32, UInt32.toNat_toUInt8]
  omega

theorem pack_eq_word (color : Quad) : pack color =
    Bytecode.word (level color.x).toUInt8 (level color.y).toUInt8 (level color.z).toUInt8 (level color.w).toUInt8 := by
  simp only [pack, Bytecode.word, toUInt32_toUInt8_level]

/-- **Each byte is the level of its own lane.** -/
theorem byte_pack (color : Quad) (k : Component) : ((pack color).byte k).toUInt32 = level (color.get k) := by
  have hbytes := Bytecode.bytesOfWord_word (level color.x).toUInt8 (level color.y).toUInt8 (level color.z).toUInt8
    (level color.w).toUInt8
  rw [← pack_eq_word, Bytecode.bytesOfWord] at hbytes
  simp only [List.cons.injEq, and_true] at hbytes
  obtain ⟨hx, hy, hz, hw⟩ := hbytes
  have hlevel : ∀ k, (pack color).byte k = (level (color.get k)).toUInt8 := by
    intro k
    cases k with
    | x =>
      show (pack color >>> 0).toUInt8 = _
      rw [UInt32.shiftRight_zero]
      exact hx
    | y => exact hy
    | z => exact hz
    | w => exact hw
  rw [hlevel, toUInt32_toUInt8_level]

end Texel

namespace Image

theorem write_read (i : Image) (x y : UInt32) : i.write x y (i.read x y) = i := by
  refine ext_read (width_write ..) (height_write ..) fun x' y' _ _ => ?_
  rw [read_write]
  split
  · rename_i h
    rw [h.1.1, h.1.2]
  · rfl

theorem writeColor_readColor (i : Image) (x y : UInt32) : i.writeColor x y (i.readColor x y) = i := by
  rw [writeColor, readColor, Texel.pack_unpack, write_read]

end Image

namespace Texel

/-- **Packing is exact on texels and keeps channels apart.**  Of a colour of any bits, each byte is the level of its own
lane and of nothing else, and no level is above 255.  So a colour that is read from an image and written back there
leaves the image as it is, and a colour that was packed once is packed to the same texel again. -/
theorem packing_is_exact :
    (∀ t, pack (unpack t) = t) ∧
    (∀ color k, ((pack color).byte k).toUInt32 = level (color.get k)) ∧
    (∀ a, (level a).toNat = (a.clamp .zero .one * .channelMax).toNatRounded ∧ level a ≤ 255) ∧
    (∀ (i : Image) (x y : UInt32), i.writeColor x y (i.readColor x y) = i) ∧
    ∀ color, pack (unpack (pack color)) = pack color :=
  ⟨pack_unpack, byte_pack, fun a => ⟨toNat_level a, level_le a⟩, Image.writeColor_readColor,
    fun color => pack_unpack (pack color)⟩

end Texel
end PixelShader
