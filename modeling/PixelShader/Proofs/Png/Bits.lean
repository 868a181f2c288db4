import Mathlib
import PixelShader.Png.Deflate
/-!
# What is written bit by bit is read bit by bit

A byte is eight bits, lowest first (`bitsOf`).  A writer holds the bits that it was given (`BitWriter.Holds`), whatever
part of a byte it has begun.  A reader reads a value from certain bits (`Reads`) if it finds the value wherever these
bits come next, and goes on right behind them.  So readings are put together as their bits are (`Reads.bind`), and what
stands behind does not matter.
-/
namespace PixelShader.Png

/-! ## Bits of numbers and bytes -/

/-- The bits of a number of the given width, lowest first. -/
def numberBits (width value : Nat) : List Nat := (List.range width).map fun n => (value >>> n) % 2

def codewordBits (width value : Nat) : List Nat := (numberBits width value).reverse

def byteBits (b : UInt8) : List Nat := numberBits 8 b.toNat

def bitsOf (bytes : ByteArray) : List Nat := bytes.data.toList.flatMap byteBits

@[simp] theorem length_numberBits (width value : Nat) : (numberBits width value).length = width := by
  simp [numberBits]

theorem length_byteBits (b : UInt8) : (byteBits b).length = 8 := length_numberBits 8 b.toNat

@[simp] theorem length_codewordBits (width value : Nat) : (codewordBits width value).length = width := by
  simp [codewordBits]

theorem numberBits_succ (width value : Nat) :
    numberBits (width + 1) value = value % 2 :: numberBits width (value / 2) := by
  unfold numberBits
  rw [List.range_succ_eq_map, List.map_cons, List.map_map]
  refine congrArg₂ _ rfl (List.map_congr_left fun n _ => ?_)
  rw [Function.comp_apply, Nat.succ_eq_add_one, Nat.add_comm n, Nat.shiftRight_add]
  rfl

theorem numberBits_concat (width value : Nat) :
    numberBits (width + 1) value = numberBits width value ++ [(value >>> width) % 2] := by
  unfold numberBits
  rw [List.range_succ, List.map_append]
  rfl

theorem numberBits_prefix {m n : Nat} (value : Nat) (h : m ≤ n) : numberBits m value <+: numberBits n value := by
  induction h with
  | refl => exact List.prefix_rfl
  | step _ ih =>
    rw [Nat.succ_eq_add_one, numberBits_concat]
    exact ih.trans (List.prefix_append _ _)

theorem codewordBits_succ (width value : Nat) :
    codewordBits (width + 1) value = (value >>> width) % 2 :: codewordBits width value := by
  rw [codewordBits, numberBits_concat, List.reverse_concat]
  rfl

theorem numberBits_add_shiftLeft {width low bit : Nat} (hlow : low < 2 ^ width) (hbit : bit < 2) :
    numberBits (width + 1) (low + bit <<< width) = numberBits width low ++ [bit] := by
  have htest : ∀ n, (low + bit <<< width).testBit n = if n < width then low.testBit n else bit.testBit (n - width) := by
    intro n
    rw [Nat.shiftLeft_eq, Nat.add_comm, Nat.mul_comm, Nat.testBit_two_pow_mul_add bit hlow]
  have hshift : ∀ v n, v >>> n % 2 = (Nat.testBit v n).toNat := by
    intro v n
    rw [Nat.toNat_testBit, Nat.shiftRight_eq_div_pow]
  rw [numberBits_concat]
  refine congrArg₂ _ (List.map_congr_left fun n hn => ?_) (congrArg (· :: []) ?_)
  · rw [hshift, hshift, htest, if_pos (List.mem_range.1 hn)]
  · rw [hshift, htest, if_neg (Nat.lt_irrefl _), Nat.sub_self, Nat.toNat_testBit]
    omega

theorem length_flatMap_of_length {α β : Type} {f : α → List β} {k : Nat} (hf : ∀ a, (f a).length = k) (l : List α) :
    (l.flatMap f).length = l.length * k := by
  simp [List.length_flatMap, hf]

theorem getElem?_flatMap_of_length {α β : Type} {f : α → List β} {k : Nat} (hk : 0 < k) (hf : ∀ a, (f a).length = k) :
    ∀ (l : List α) (n : Nat), (l.flatMap f)[n]? = l[n / k]?.bind fun a => (f a)[n % k]?
  | [], n => by simp
  | a :: l, n => by
    rw [List.flatMap_cons, List.getElem?_append, hf]
    by_cases hn : n < k
    · rw [if_pos hn, Nat.div_eq_of_lt hn, Nat.mod_eq_of_lt hn]
      rfl
    · obtain ⟨m, rfl⟩ := Nat.exists_eq_add_of_le (Nat.not_lt.1 hn)
      rw [if_neg hn, Nat.add_sub_cancel_left, getElem?_flatMap_of_length hk hf l m, Nat.add_div_left m hk,
        Nat.add_mod_left, List.getElem?_cons_succ]

theorem getElem?_flatMap_mul_add {α β : Type} {f : α → List β} {k i j : Nat} (hf : ∀ a, (f a).length = k) (hj : j < k)
    (l : List α) : (l.flatMap f)[i * k + j]? = l[i]?.bind fun a => (f a)[j]? := by
  have hk : 0 < k := Nat.zero_lt_of_lt hj
  rw [getElem?_flatMap_of_length hk hf, Nat.mul_comm, Nat.mul_add_div hk, Nat.div_eq_of_lt hj, Nat.add_zero,
    Nat.mul_add_mod, Nat.mod_eq_of_lt hj]

theorem byteAt_eq (bytes : ByteArray) (n : Nat) : byteAt bytes n = (bytes.data[n]?.map UInt8.toNat).getD 0 := by
  unfold byteAt
  split
  · rename_i h
    rw [Array.getElem?_eq_getElem h]
    rfl
  · rename_i h
    rw [Array.getElem?_eq_none (Nat.not_lt.1 h)]
    rfl

theorem getElem?_bitsOf (bytes : ByteArray) (n : Nat) :
    (bitsOf bytes)[n]? = if n / 8 < bytes.size then some ((byteAt bytes (n / 8) >>> (n % 8)) % 2) else none := by
  have hmod : n % 8 < 8 := Nat.mod_lt _ (by decide)
  rw [bitsOf, getElem?_flatMap_of_length (by decide) length_byteBits]
  rw [Array.getElem?_toList, byteAt_eq]
  split
  · rename_i h
    rw [Array.getElem?_eq_getElem h]
    simp [byteBits, numberBits, hmod]
  · rename_i h
    rw [Array.getElem?_eq_none (Nat.not_lt.1 h)]
    rfl

theorem length_bitsOf (bytes : ByteArray) : (bitsOf bytes).length = 8 * bytes.size := by
  rw [bitsOf, length_flatMap_of_length length_byteBits, Nat.mul_comm]
  rfl

theorem bitsOf_push (bytes : ByteArray) (b : UInt8) : bitsOf (bytes.push b) = bitsOf bytes ++ byteBits b := by
  simp [bitsOf, ByteArray.data_push]

theorem bitsOf_append (a b : ByteArray) : bitsOf (a ++ b) = bitsOf a ++ bitsOf b := by
  simp [bitsOf, ByteArray.data_append]

/-! ## Writing -/

namespace BitWriter

/-- The bits that a writer was given, in whole bytes and in the one begun. -/
structure Holds (w : BitWriter) (bits : List Nat) : Prop where
  count : w.count < 8
  begun : w.begun < 2 ^ w.count
  bits : bitsOf w.bytes ++ numberBits w.count w.begun = bits

section
variable {w : BitWriter} {bits : List Nat}

theorem holds_ofBytes (bytes : ByteArray) : (ofBytes bytes).Holds (bitsOf bytes) :=
  ⟨Nat.zero_lt_succ 7, Nat.zero_lt_one, List.append_nil _⟩

theorem Holds.bit {value : Nat} (h : w.Holds bits) (hv : value < 2) : (w.bit value).Holds (bits ++ [value]) := by
  have hbegun : w.begun + value <<< w.count < 2 ^ (w.count + 1) := by
    have := h.begun
    rw [Nat.shiftLeft_eq, pow_succ]
    nlinarith [Nat.two_pow_pos w.count]
  have hbits := numberBits_add_shiftLeft h.begun hv
  unfold BitWriter.bit
  split
  · rename_i hc
    have hbyte : (UInt8.ofNat (w.begun + value <<< w.count)).toNat = w.begun + value <<< w.count := by
      rw [hc] at hbegun ⊢
      exact UInt8.toNat_ofNat_of_lt' hbegun
    refine ⟨Nat.zero_lt_succ 7, Nat.zero_lt_one, ?_⟩
    rw [← h.bits, List.append_assoc, ← hbits, bitsOf_push, byteBits, hbyte, hc]
    exact List.append_nil _
  · rename_i hc
    have := h.count
    exact ⟨by show w.count + 1 < 8; omega, hbegun, by rw [← h.bits, List.append_assoc, ← hbits]⟩

theorem Holds.number (width value : Nat) (h : w.Holds bits) :
    (w.number width value).Holds (bits ++ numberBits width value) := by
  induction width generalizing w bits value with
  | zero => exact (List.append_nil bits).symm ▸ h
  | succ width ih =>
    rw [numberBits_succ, List.append_cons]
    exact ih (value / 2) (h.bit (Nat.mod_lt _ (by decide)))

theorem Holds.codeword (width value : Nat) (h : w.Holds bits) :
    (w.codeword width value).Holds (bits ++ codewordBits width value) := by
  induction width generalizing w bits with
  | zero => exact (List.append_nil bits).symm ▸ h
  | succ width ih =>
    rw [codewordBits_succ, List.append_cons]
    exact ih (h.bit (Nat.mod_lt _ (by decide)))

theorem Holds.finish (h : w.Holds bits) : bits <+: bitsOf w.finish := by
  have hlt := h.count
  unfold BitWriter.finish
  rw [← h.bits]
  split
  · rename_i hc
    rw [hc]
    exact ⟨[], by rw [List.append_nil]; exact List.append_nil _⟩
  · have hbyte : (UInt8.ofNat w.begun).toNat = w.begun :=
      UInt8.toNat_ofNat_of_lt' (Nat.lt_of_lt_of_le h.begun (Nat.pow_le_pow_right (by decide) hlt.le))
    rw [bitsOf_push, byteBits, hbyte, List.prefix_append_right_inj]
    exact numberBits_prefix w.begun hlt.le

end
end BitWriter

/-! ## Reading -/

namespace Bits

def rest (s : Bits) : List Nat := (bitsOf s.data).drop s.position

def skip (s : Bits) (n : Nat) : Bits := { s with position := s.position + n }

theorem skip_skip (s : Bits) (m n : Nat) : (s.skip m).skip n = s.skip (m + n) := by
  simp only [skip, Nat.add_assoc]

theorem rest_skip (s : Bits) (n : Nat) : (s.skip n).rest = s.rest.drop n := by
  rw [rest, rest, List.drop_drop]
  rfl

end Bits

/-- The value is read from the bits, wherever they come next, and no bit behind them is taken. -/
def Reads {α : Type} (m : BitReader α) (bits : List Nat) (a : α) : Prop :=
  ∀ s : Bits, bits <+: s.rest → m s = some (a, s.skip bits.length)

section
variable {α β : Type} {bits more : List Nat} {a : α} {b : β}

theorem reads_pure (a : α) : Reads (pure a) [] a := fun _ _ => rfl

theorem Reads.bind {m : BitReader α} {f : α → BitReader β} (hm : Reads m bits a) (hf : Reads (f a) more b) :
    Reads (m >>= f) (bits ++ more) b := by
  rintro s ⟨behind, hs⟩
  rw [List.append_assoc] at hs
  have hmore : more <+: (s.skip bits.length).rest := by
    rw [s.rest_skip, ← hs, List.drop_left]
    exact List.prefix_append _ _
  show (m s).bind (fun r => f r.1 r.2) = _
  rw [hm s ⟨_, hs⟩, Option.bind_some, hf _ hmore, s.skip_skip, List.length_append]

theorem Reads.bind_pure {m : BitReader α} {f : α → β} (hm : Reads m bits a) :
    Reads (do return f (← m)) bits (f a) := by
  have h := hm.bind (f := fun a => pure (f a)) (reads_pure (f a))
  rwa [List.append_nil] at h

theorem reads_bit (bit : Nat) : Reads BitReader.bit [bit] bit := by
  rintro s ⟨behind, hs⟩
  have hget : (bitsOf s.data)[s.position]? = some bit := by
    have h0 : s.rest[0]? = some bit := by rw [← hs]; rfl
    rwa [Bits.rest, List.getElem?_drop, Nat.add_zero] at h0
  rw [getElem?_bitsOf] at hget
  unfold BitReader.bit
  split at hget
  · rename_i h
    rw [if_pos h, Option.some.inj hget]
    rfl
  · cases hget

theorem reads_number {width value : Nat} (h : value < 2 ^ width) :
    Reads (BitReader.number width) (numberBits width value) value := by
  induction width generalizing value with
  | zero =>
    obtain rfl : value = 0 := by simpa using h
    exact reads_pure 0
  | succ width ih =>
    have hdiv : value / 2 < 2 ^ width := by
      rw [pow_succ] at h
      omega
    have hread : Reads (BitReader.number (width + 1)) ([value % 2] ++ numberBits width (value / 2))
        (value % 2 + 2 * (value / 2)) :=
      (reads_bit (value % 2)).bind (f := fun low => do return low + 2 * (← BitReader.number width)) (ih hdiv).bind_pure
    rwa [Nat.mod_add_div, List.singleton_append, ← numberBits_succ] at hread

end
end PixelShader.Png
