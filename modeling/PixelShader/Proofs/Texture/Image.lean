import Mathlib
import PixelShader.Rendering
/-!
# An image as a store of texels

Two positions of an image never share a texel, so a write changes what is read at its own position and nowhere else
(`Image.read_write`), a run of writes leaves every position as last written (`Image.stores_last_writes`), and painting
pixels at different positions leaves each of them with its own colour (`Image.read_foldl_paint`).  What can be read of
an image is all there is to it (`Image.ext_read`).
-/
namespace PixelShader.Image

/-! ## Reading and writing -/

section
variable {i : Image} {x y : UInt32}

theorem read_of_lt (h : x < i.width ∧ y < i.height) :
    i.texels[y.toNat * i.width.toNat + x.toNat]? = some (i.read x y) := by
  rw [read, index?, dif_pos h]
  exact Array.getElem?_eq_getElem (i.index_lt h)

theorem read_of_not_lt (h : ¬ (x < i.width ∧ y < i.height)) : i.read x y = 0 := by
  rw [read, index?, dif_neg h]

theorem write_of_not_lt (h : ¬ (x < i.width ∧ y < i.height)) (t : Texel) : i.write x y t = i := by
  rw [write, index?, dif_neg h]

theorem texels_write_of_lt (h : x < i.width ∧ y < i.height) (t : Texel) :
    (i.write x y t).texels = i.texels.set (y.toNat * i.width.toNat + x.toNat) t (i.index_lt h) := by
  rw [write, index?, dif_pos h]

end

@[simp] theorem width_write (i : Image) (x y : UInt32) (t : Texel) : (i.write x y t).width = i.width := by
  unfold write
  split <;> rfl

@[simp] theorem height_write (i : Image) (x y : UInt32) (t : Texel) : (i.write x y t).height = i.height := by
  unfold write
  split <;> rfl

theorem position_inj {w a b c d : Nat} (ha : a < w) (hc : c < w) (h : b * w + a = d * w + c) : a = c ∧ b = d := by
  have hw : 0 < w := Nat.lt_of_le_of_lt (Nat.zero_le a) ha
  have hmod := congrArg (· % w) h
  have hdiv := congrArg (· / w) h
  simp only [Nat.mul_add_mod_self_right, Nat.mod_eq_of_lt ha, Nat.mod_eq_of_lt hc] at hmod
  simp only [Nat.mul_comm _ w, Nat.mul_add_div hw, Nat.div_eq_of_lt ha, Nat.div_eq_of_lt hc, Nat.add_zero] at hdiv
  exact ⟨hmod, hdiv⟩

/-- **A write shows at its own position, if that is in the image, and at no other.** -/
theorem read_write (i : Image) (x y : UInt32) (t : Texel) (x' y' : UInt32) :
    (i.write x y t).read x' y' = if (x' = x ∧ y' = y) ∧ x < i.width ∧ y < i.height then t else i.read x' y' := by
  by_cases h : x < i.width ∧ y < i.height
  · by_cases h' : x' < i.width ∧ y' < i.height
    · have hw : x' < (i.write x y t).width ∧ y' < (i.write x y t).height := by simpa using h'
      have hread := read_of_lt hw
      rw [texels_write_of_lt h, width_write, Array.getElem?_set] at hread
      split at hread
      · rename_i hpos
        obtain ⟨hx, hy⟩ := position_inj h.1 h'.1 hpos
        rw [if_pos ⟨⟨UInt32.toNat_inj.1 hx.symm, UInt32.toNat_inj.1 hy.symm⟩, h⟩]
        exact (Option.some.inj hread).symm
      · rename_i hpos
        have hne : ¬ ((x' = x ∧ y' = y) ∧ x < i.width ∧ y < i.height) := fun he =>
          hpos (by rw [he.1.1, he.1.2])
        rw [if_neg hne]
        exact Option.some.inj (hread.symm.trans (read_of_lt h'))
    · have hne : ¬ ((x' = x ∧ y' = y) ∧ x < i.width ∧ y < i.height) := fun he =>
        h' (by rw [he.1.1, he.1.2]; exact h)
      rw [if_neg hne, read_of_not_lt h', read_of_not_lt (by simpa using h')]
  · rw [write_of_not_lt h, if_neg fun he => h he.2]

@[simp] theorem read_blank (width height x y : UInt32) : (blank width height).read x y = 0 := by
  by_cases h : x < (blank width height).width ∧ y < (blank width height).height
  · have hread := read_of_lt h
    rw [blank, filled, Array.getElem?_replicate] at hread
    split at hread
    · exact (Option.some.inj hread).symm
    · cases hread
  · exact read_of_not_lt h

/-- **Images of one size that read the same are the same.** -/
theorem ext_read {i j : Image} (hw : i.width = j.width) (hh : i.height = j.height)
    (h : ∀ x y, x < i.width → y < i.height → i.read x y = j.read x y) : i = j := by
  have htexels : i.texels = j.texels := by
    apply Array.ext_getElem?
    intro n
    by_cases hn : n < i.width.toNat * i.height.toNat
    · have hpos : 0 < i.width.toNat := Nat.pos_of_ne_zero fun h0 => by simp [h0] at hn
      have hx : n % i.width.toNat < i.width.toNat := Nat.mod_lt _ hpos
      have hy : n / i.width.toNat < i.height.toNat := Nat.div_lt_of_lt_mul hn
      have hxn : (UInt32.ofNat (n % i.width.toNat)).toNat = n % i.width.toNat :=
        UInt32.toNat_ofNat_of_lt' (Nat.lt_trans hx i.width.toNat_lt)
      have hyn : (UInt32.ofNat (n / i.width.toNat)).toNat = n / i.width.toNat :=
        UInt32.toNat_ofNat_of_lt' (Nat.lt_trans hy i.height.toNat_lt)
      have hin : UInt32.ofNat (n % i.width.toNat) < i.width ∧ UInt32.ofNat (n / i.width.toNat) < i.height := by
        rw [UInt32.lt_iff_toNat_lt, UInt32.lt_iff_toNat_lt, hxn, hyn]
        exact ⟨hx, hy⟩
      have hi := read_of_lt hin
      have hj := read_of_lt (i := j) (by rw [← hw, ← hh]; exact hin)
      rw [← hw] at hj
      rw [hxn, hyn, Nat.div_add_mod'] at hi hj
      rw [hi, hj, h _ _ hin.1 hin.2]
    · have hi : i.texels.size ≤ n := by rw [i.size_eq]; omega
      have hj : j.texels.size ≤ n := by rw [j.size_eq, ← hw, ← hh]; omega
      rw [Array.getElem?_eq_none hi, Array.getElem?_eq_none hj]
  obtain ⟨wi, hi, ti, si⟩ := i
  obtain ⟨wj, hj, tj, sj⟩ := j
  simp only at hw hh htexels
  subst hw hh htexels
  rfl

/-! ## Runs of writes -/

structure Write where
  x : UInt32
  y : UInt32
  texel : Texel

def put (i : Image) (w : Write) : Image := i.write w.x w.y w.texel

def writeAll (i : Image) (writes : List Write) : Image := writes.foldl put i

/-- The texel of the last of the writes at a position. -/
def lastAt (writes : List Write) (x y : UInt32) : Option Texel :=
  (writes.reverse.find? fun w => w.x = x ∧ w.y = y).map Write.texel

theorem writeAll_concat (i : Image) (writes : List Write) (w : Write) :
    i.writeAll (writes ++ [w]) = (i.writeAll writes).put w := by
  rw [writeAll, writeAll, List.foldl_concat]

theorem lastAt_concat (writes : List Write) (w : Write) (x y : UInt32) :
    lastAt (writes ++ [w]) x y = if w.x = x ∧ w.y = y then some w.texel else lastAt writes x y := by
  rw [lastAt, lastAt, List.reverse_concat, List.find?_cons]
  by_cases h : w.x = x ∧ w.y = y <;> simp [h]

@[simp] theorem width_writeAll (i : Image) (writes : List Write) : (i.writeAll writes).width = i.width := by
  induction writes using List.reverseRecOn with
  | nil => rfl
  | append_singleton writes w ih => rw [writeAll_concat, put, width_write, ih]

@[simp] theorem height_writeAll (i : Image) (writes : List Write) : (i.writeAll writes).height = i.height := by
  induction writes using List.reverseRecOn with
  | nil => rfl
  | append_singleton writes w ih => rw [writeAll_concat, put, height_write, ih]

/-- **After any run of writes, a position in the image reads as last written**, or as before the run if it was not. -/
theorem read_writeAll {i : Image} {x y : UInt32} (h : x < i.width ∧ y < i.height) (writes : List Write) :
    (i.writeAll writes).read x y = (lastAt writes x y).getD (i.read x y) := by
  induction writes using List.reverseRecOn with
  | nil => rfl
  | append_singleton writes w ih =>
    rw [writeAll_concat, put, read_write, lastAt_concat, width_writeAll, height_writeAll, ih]
    by_cases hw : w.x = x ∧ w.y = y
    · rw [if_pos hw, if_pos ⟨⟨hw.1.symm, hw.2.symm⟩, by rwa [hw.1, hw.2]⟩, Option.getD_some]
    · rw [if_neg hw, if_neg fun he => hw ⟨he.1.1.symm, he.1.2.symm⟩]

theorem eq_of_index?_eq {i : Image} {x y x' y' : UInt32} (h : x < i.width ∧ y < i.height)
    (h' : x' < i.width ∧ y' < i.height) (he : i.index? x y = i.index? x' y') : x = x' ∧ y = y' := by
  rw [index?, index?, dif_pos h, dif_pos h', Option.some_inj, Fin.mk.injEq] at he
  obtain ⟨hx, hy⟩ := position_inj h.1 h'.1 he
  exact ⟨UInt32.toNat_inj.1 hx, UInt32.toNat_inj.1 hy⟩

/-! ## Newly made images -/

/-- An image as it is made, with the texels that it starts with. -/
inductive Made (width height : UInt32) : Array Texel → Image → Prop
  | blank : Made width height (.replicate (width.toNat * height.toNat) 0) (blank width height)
  | filled (t : Texel) : Made width height (.replicate (width.toNat * height.toNat) t) (filled width height t)
  | ofTexels {texels : Array Texel} {i : Image} :
      ofTexels? width height texels = some i → Made width height texels i

theorem ofTexels?_eq_some_iff {width height : UInt32} {texels : Array Texel} {i : Image} :
    ofTexels? width height texels = some i ↔ i.width = width ∧ i.height = height ∧ i.texels = texels := by
  constructor
  · intro h
    rw [ofTexels?] at h
    split at h
    · cases h
      exact ⟨rfl, rfl, rfl⟩
    · cases h
  · rintro ⟨rfl, rfl, rfl⟩
    rw [ofTexels?, dif_pos i.size_eq]

theorem exists_ofTexels?_iff {width height : UInt32} {texels : Array Texel} :
    (∃ i, ofTexels? width height texels = some i) ↔ texels.size = width.toNat * height.toNat := by
  constructor
  · rintro ⟨i, hi⟩
    obtain ⟨rfl, rfl, rfl⟩ := ofTexels?_eq_some_iff.1 hi
    exact i.size_eq
  · intro h
    exact ⟨⟨width, height, texels, h⟩, dif_pos h⟩

theorem Made.fields_eq {width height : UInt32} {initial : Array Texel} {i : Image} (h : Made width height initial i) :
    i.width = width ∧ i.height = height ∧ i.texels = initial := by
  cases h with
  | blank => exact ⟨rfl, rfl, rfl⟩
  | filled t => exact ⟨rfl, rfl, rfl⟩
  | ofTexels h => exact ofTexels?_eq_some_iff.1 h

theorem area_lt (width height : UInt32) : width.toNat * height.toNat < 2 ^ 64 := by
  calc width.toNat * height.toNat < 2 ^ 32 * 2 ^ 32 := Nat.mul_lt_mul'' width.toNat_lt height.toNat_lt
    _ = 2 ^ 64 := by norm_num

/-- **An image is an exact store of its texels.**  Texels make an image just if there is one for every position, and
that number fits 64 bits.  Whatever is written to an image from then on, it keeps its size; in it every position reads
as last written, or as it was made; outside of it reads are 0 and writes change nothing; and different positions in it
are stored at different places. -/
theorem stores_last_writes (width height : UInt32) :
    width.toNat * height.toNat < 2 ^ 64 ∧
    (∀ texels, (∃ i, ofTexels? width height texels = some i) ↔ texels.size = width.toNat * height.toNat) ∧
    ∀ initial i, Made width height initial i → ∀ writes,
      ((i.writeAll writes).width = width ∧ (i.writeAll writes).height = height ∧
        (i.writeAll writes).texels.size = width.toNat * height.toNat) ∧
      (∀ x y, x < width ∧ y < height →
        some ((i.writeAll writes).read x y) =
          (lastAt writes x y).or initial[y.toNat * width.toNat + x.toNat]?) ∧
      (∀ x y, ¬ (x < width ∧ y < height) →
        (i.writeAll writes).read x y = 0 ∧ ∀ t, (i.writeAll writes).write x y t = i.writeAll writes) ∧
      ∀ x y x' y', x < width ∧ y < height → x' < width ∧ y' < height → ¬ (x = x' ∧ y = y') →
        (i.writeAll writes).index? x y ≠ (i.writeAll writes).index? x' y' := by
  refine ⟨area_lt width height, fun texels => exists_ofTexels?_iff, ?_⟩
  intro initial i hmade writes
  obtain ⟨rfl, rfl, rfl⟩ := hmade.fields_eq
  have hw := width_writeAll i writes
  have hh := height_writeAll i writes
  refine ⟨⟨hw, hh, ?_⟩, ?_, ?_, ?_⟩
  · rw [(i.writeAll writes).size_eq, hw, hh]
  · intro x y h
    rw [read_of_lt h, read_writeAll h]
    cases lastAt writes x y <;> rfl
  · intro x y h
    rw [← hw, ← hh] at h
    exact ⟨read_of_not_lt h, write_of_not_lt h⟩
  · intro x y x' y' h h' hne he
    rw [← hw, ← hh] at h h'
    exact hne (eq_of_index?_eq h h' he)

/-- The write at (3, 0) is outside of the rows of three, so it does not show at (0, 1). -/
theorem stores_last_writes_small : ∃ i, ofTexels? 3 2 #[10, 11, 12, 13, 14, 15] = some i ∧
    let j := i.writeAll [⟨1, 1, 7⟩, ⟨3, 0, 8⟩, ⟨1, 1, 9⟩, ⟨0, 2, 6⟩]
    j.texels.size = 6 ∧ j.read 1 1 = 9 ∧ j.read 0 1 = 13 ∧ j.read 3 0 = 0 ∧ j.index? 0 1 ≠ j.index? 1 0 := by
  obtain ⟨-, hmakes, hstores⟩ := stores_last_writes 3 2
  obtain ⟨i, hi⟩ := (hmakes #[10, 11, 12, 13, 14, 15]).2 (by decide)
  obtain ⟨hsize, hin, hout, hplaces⟩ :=
    hstores _ i (.ofTexels hi) [⟨1, 1, 7⟩, ⟨3, 0, 8⟩, ⟨1, 1, 9⟩, ⟨0, 2, 6⟩]
  refine ⟨i, hi, hsize.2.2, ?_, ?_, (hout 3 0 (by decide)).1, hplaces 0 1 1 0 (by decide) (by decide) (by decide)⟩
  · exact Option.some.inj (hin 1 1 (by decide))
  · exact Option.some.inj (hin 0 1 (by decide))

/-! ## Painting -/

theorem foldl_paint (paints : List Paint) (i : Image) :
    paints.foldl paint i = i.writeAll (paints.map fun p => ⟨p.x, p.y, .pack p.color⟩) := by
  rw [writeAll, List.foldl_map]
  rfl

theorem width_foldl_paint (paints : List Paint) (i : Image) : (paints.foldl paint i).width = i.width := by
  rw [foldl_paint, width_writeAll]

theorem height_foldl_paint (paints : List Paint) (i : Image) : (paints.foldl paint i).height = i.height := by
  rw [foldl_paint, height_writeAll]

theorem read_foldl_paint_of_notMem {x y : UInt32} : ∀ (paints : List Paint) (i : Image),
    (x, y) ∉ paints.map (fun p => (p.x, p.y)) → (paints.foldl paint i).read x y = i.read x y
  | [], _, _ => rfl
  | p :: paints, i, h => by
    rw [List.map_cons, List.mem_cons, not_or] at h
    have hne : ¬ ((x = p.x ∧ y = p.y) ∧ p.x < i.width ∧ p.y < i.height) := fun he => h.1 (Prod.ext he.1.1 he.1.2)
    rw [List.foldl_cons, read_foldl_paint_of_notMem paints _ h.2, paint, writeColor, read_write, if_neg hne]

/-- **Painted at different positions, every pixel in the image keeps the colour it was painted with.** -/
theorem read_foldl_paint {p : Paint} : ∀ (paints : List Paint) (i : Image),
    (paints.map fun p => (p.x, p.y)).Nodup → p ∈ paints → p.x < i.width → p.y < i.height →
      (paints.foldl paint i).read p.x p.y = .pack p.color
  | [], _, _, hp, _, _ => by cases hp
  | q :: paints, i, hnd, hp, hx, hy => by
    rw [List.map_cons, List.nodup_cons] at hnd
    rw [List.foldl_cons]
    rcases List.mem_cons.1 hp with rfl | hp
    · rw [read_foldl_paint_of_notMem paints _ hnd.1, paint, writeColor, read_write, if_pos ⟨⟨rfl, rfl⟩, hx, hy⟩]
    · exact read_foldl_paint paints _ hnd.2 hp (by simpa [paint, writeColor] using hx)
        (by simpa [paint, writeColor] using hy)

end PixelShader.Image
