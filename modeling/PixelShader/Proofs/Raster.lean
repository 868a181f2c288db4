import Mathlib
import PixelShader.Raster
/-!
# Which pixels the walk visits

The walk carries a position and a coordinate along and counts nothing.  `after` says where it stands after `k` pixels
without walking: in column `k / height` and row `k % height`, at one coordinate that depends on the column only and one
that depends on the row only (`along`).  One step of the walk is one step of `k` (`advance_after`), so its pixels are
those of `after` in order, and it ends by itself behind the last of them (`take_start`).
-/
namespace PixelShader.Walk

/-- The coordinate after `k` steps along a side of `n` pixels. -/
def along (n : UInt32) : Nat → Lane
  | 0 => centre n
  | k + 1 => along n k + share n

def pixelAt (width height : UInt32) (x y : Nat) : Pixel :=
  ⟨UInt32.ofNat x, UInt32.ofNat y, along width x, along height y⟩

def after (width height : UInt32) (k : Nat) : Walk :=
  ⟨width, height, pixelAt width height (k / height.toNat) (k % height.toNat)⟩

section
variable {width height : UInt32} {k : Nat}

theorem column_lt (hk : k < width.toNat * height.toNat) : k / height.toNat < width.toNat :=
  Nat.div_lt_of_lt_mul (by rwa [Nat.mul_comm])

theorem height_pos (hk : k < width.toNat * height.toNat) : 0 < height.toNat :=
  Nat.pos_of_ne_zero fun h => by simp [h] at hk

theorem row_lt (hk : k < width.toNat * height.toNat) : k % height.toNat < height.toNat := Nat.mod_lt _ (height_pos hk)

theorem toNat_ofNat_of_lt {n : UInt32} (h : k < n.toNat) : (UInt32.ofNat k).toNat = k :=
  UInt32.toNat_ofNat_of_lt' (Nat.lt_trans h n.toNat_lt)

theorem ofNat_succ {n : UInt32} (h : k < n.toNat) : UInt32.ofNat k + 1 = UInt32.ofNat (k + 1) := by
  have hn := n.toNat_lt
  apply UInt32.toNat_inj.1
  rw [UInt32.toNat_add, toNat_ofNat_of_lt h, UInt32.toNat_ofNat_of_lt' (Nat.lt_of_le_of_lt h hn), UInt32.toNat_one]
  exact Nat.mod_eq_of_lt (by omega)

/-- **One step of the walk**: one row down, or to the top of the next column. -/
theorem advance_pixelAt {x y : Nat} (hx : x < width.toNat) (hy : y < height.toNat) :
    (Walk.mk width height (pixelAt width height x y)).advance =
      ⟨width, height, if y + 1 < height.toNat then pixelAt width height x (y + 1) else pixelAt width height (x + 1) 0⟩ := by
  have hnext : (UInt32.ofNat (y + 1)).toNat = y + 1 :=
    UInt32.toNat_ofNat_of_lt' (Nat.lt_of_le_of_lt hy height.toNat_lt)
  unfold advance
  by_cases hlast : y + 1 < height.toNat
  · have hlt : (pixelAt width height x y).y + 1 < height := by
      rw [pixelAt, ofNat_succ hy, UInt32.lt_iff_toNat_lt, hnext]
      exact hlast
    rw [if_pos hlt, if_pos hlast]
    simp only [pixelAt, ofNat_succ hy, along]
  · have hge : ¬ (pixelAt width height x y).y + 1 < height := by
      rw [pixelAt, ofNat_succ hy, UInt32.lt_iff_toNat_lt, hnext]
      exact hlast
    rw [if_neg hge, if_neg hlast]
    simp only [pixelAt, ofNat_succ hx, along]
    rfl

theorem advance_after (hk : k < width.toNat * height.toNat) :
    (after width height k).advance = after width height (k + 1) := by
  have hpos := height_pos hk
  have hy := row_lt hk
  have hsplit := Nat.div_add_mod k height.toNat
  rw [after, advance_pixelAt (column_lt hk) hy, after]
  generalize k / height.toNat = x at *
  generalize k % height.toNat = y at *
  split
  · rename_i hlast
    rw [← hsplit, Nat.add_assoc, Nat.mul_add_div hpos, Nat.mul_add_mod, Nat.div_eq_of_lt hlast, Nat.mod_eq_of_lt hlast]
    rfl
  · rename_i hlast
    have hend : k + 1 = height.toNat * (x + 1) := by
      rw [Nat.mul_add]
      omega
    rw [hend, Nat.mul_div_cancel_left _ hpos, Nat.mul_mod_right]

theorem isDone_after (hk : k < width.toNat * height.toNat) : (after width height k).isDone = false := by
  have hx := column_lt hk
  refine decide_eq_false (UInt32.not_le.2 ?_)
  rw [UInt32.lt_iff_toNat_lt, after, pixelAt, toNat_ofNat_of_lt hx]
  exact hx

theorem isDone_after_last (hh : 0 < height.toNat) :
    (after width height (width.toNat * height.toNat)).isDone = true := by
  refine decide_eq_true ?_
  rw [after, pixelAt, Nat.mul_div_cancel _ hh, UInt32.ofNat_toNat]
  exact UInt32.le_refl width

theorem takeOnto_after (hh : 0 < height.toNat) : ∀ (n k : Nat) (taken : Array Pixel),
    k ≤ width.toNat * height.toNat → (takeOnto taken n (after width height k)).toList =
      taken.toList ++ (List.range' k (min n (width.toNat * height.toNat - k))).map fun k =>
        pixelAt width height (k / height.toNat) (k % height.toNat)
  | 0, k, taken, _ => by simp [takeOnto]
  | n + 1, k, taken, h => by
    rcases Nat.lt_or_eq_of_le h with hk | rfl
    · have hmin : min (n + 1) (width.toNat * height.toNat - k) =
          min n (width.toNat * height.toNat - (k + 1)) + 1 := by omega
      rw [takeOnto, isDone_after hk, advance_after hk]
      simp only [Bool.false_eq_true, if_false]
      rw [takeOnto_after hh n (k + 1) _ hk, hmin, List.range'_succ]
      simp [after]
    · rw [takeOnto, isDone_after_last hh, if_pos rfl, Nat.sub_self, Nat.min_zero]
      simp

theorem start_eq_after (hh : 0 < height.toNat) : start width height = after width height 0 := by
  have hne : height ≠ 0 := by
    rintro rfl
    exact absurd hh (by decide)
  simp only [start, after, pixelAt, hne, if_false, Nat.zero_div, Nat.zero_mod, along]
  rfl

/-- **However many pixels are asked for, the walk gives those of the image in order and then ends.** -/
theorem take_start (width height : UInt32) (n : Nat) :
    (start width height).take n = (List.range (min n (width.toNat * height.toNat))).map fun k =>
      pixelAt width height (k / height.toNat) (k % height.toNat) := by
  rcases Nat.eq_zero_or_pos height.toNat with hh | hh
  · obtain rfl : height = 0 := UInt32.toNat_inj.1 hh
    -- without rows the walk starts behind its last column
    cases n <;> simp [take, takeOnto, start, isDone]
  · rw [take, start_eq_after hh, takeOnto_after hh n 0 #[] (Nat.zero_le _), List.range_eq_range']
    simp

/-- **The pixels of an image, column by column and each column from its first row.** -/
theorem pixels_eq (width height : UInt32) :
    pixels width height = (List.range (width.toNat * height.toNat)).map fun k =>
      pixelAt width height (k / height.toNat) (k % height.toNat) := by
  rw [pixels, take_start, size, start, Nat.min_self]

theorem mem_pixels {p : Pixel} : p ∈ pixels width height ↔
    p.x < width ∧ p.y < height ∧ p = pixelAt width height p.x.toNat p.y.toNat := by
  rw [pixels_eq, List.mem_map]
  constructor
  · rintro ⟨k, hk, rfl⟩
    rw [List.mem_range] at hk
    have hx := column_lt hk
    have hy := row_lt hk
    simp only [pixelAt, UInt32.lt_iff_toNat_lt, toNat_ofNat_of_lt hx, toNat_ofNat_of_lt hy]
    exact ⟨hx, hy, trivial⟩
  · rintro ⟨hx, hy, hp⟩
    rw [UInt32.lt_iff_toNat_lt] at hx hy
    have hlt : p.x.toNat * height.toNat + p.y.toNat < width.toNat * height.toNat := by
      calc p.x.toNat * height.toNat + p.y.toNat < p.x.toNat * height.toNat + height.toNat := by omega
        _ = (p.x.toNat + 1) * height.toNat := by rw [Nat.add_mul, Nat.one_mul]
        _ ≤ width.toNat * height.toNat := Nat.mul_le_mul_right _ hx
    refine ⟨p.x.toNat * height.toNat + p.y.toNat, List.mem_range.2 hlt, ?_⟩
    rw [Nat.mul_comm, Nat.mul_add_div (by omega), Nat.mul_add_mod, Nat.div_eq_of_lt hy, Nat.mod_eq_of_lt hy,
      Nat.add_zero, ← hp]

theorem pixelAt_mem_pixels {x y : UInt32} (hx : x < width) (hy : y < height) :
    pixelAt width height x.toNat y.toNat ∈ pixels width height := by
  rw [mem_pixels]
  simp only [pixelAt, UInt32.ofNat_toNat]
  exact ⟨hx, hy, trivial⟩

theorem nodup_positions (width height : UInt32) : ((pixels width height).map fun p => (p.x, p.y)).Nodup := by
  rw [pixels_eq, List.map_map]
  refine List.nodup_range.map_on fun k hk l hl he => ?_
  rw [List.mem_range] at hk hl
  simp only [Function.comp_apply, pixelAt, Prod.mk.injEq] at he
  have hx := congrArg UInt32.toNat he.1
  have hy := congrArg UInt32.toNat he.2
  rw [toNat_ofNat_of_lt (column_lt hk), toNat_ofNat_of_lt (column_lt hl)] at hx
  rw [toNat_ofNat_of_lt (row_lt hk), toNat_ofNat_of_lt (row_lt hl)] at hy
  rw [← Nat.div_add_mod k height.toNat, ← Nat.div_add_mod l height.toNat, hx, hy]

/-! ## Where the walk stands -/

theorem along_eq_iterate (n : UInt32) : ∀ k, along n k = (· + share n)^[k] (centre n)
  | 0 => rfl
  | k + 1 => by rw [along, along_eq_iterate n k, Function.iterate_succ_apply']

theorem skip_after : ∀ n k : Nat, k + n < width.toNat * height.toNat →
    (after width height k).skip n = after width height (k + n)
  | 0, _, _ => rfl
  | n + 1, k, h => by
    have hk : k < width.toNat * height.toNat := by omega
    rw [skip, isDone_after hk, advance_after hk, if_neg Bool.false_ne_true, skip_after n (k + 1) (by omega),
      Nat.add_right_comm, Nat.add_assoc]

theorem skip_start (hk : k < width.toNat * height.toNat) : (start width height).skip k = after width height k := by
  rw [start_eq_after (height_pos hk), skip_after k 0 (by omega), Nat.zero_add]

end

/-- **The walk covers the image once, column by column.**  However many pixels are asked for, it gives the first ones
and ends behind the last.  The pixel that `k` others stand before is in column `k / height` and row `k % height`, and its
coordinates are those of the first centre with one share added for each column, and for each row, on the way.  Neither
position is ever at the end of its range when the walk moves on. -/
theorem visits_column_by_column (width height : UInt32) :
    let columnShare : Lane := .one / .ofUInt32 width
    let rowShare : Lane := .one / .ofUInt32 height
    (∀ n, ((start width height).take n).map (fun p => (p.x.toNat, p.y.toNat, p.u, p.v)) =
      (List.range (min n (width.toNat * height.toNat))).map fun k =>
        (k / height.toNat, k % height.toNat, (· + columnShare)^[k / height.toNat] (columnShare / .two),
          (· + rowShare)^[k % height.toNat] (rowShare / .two))) ∧
    ∀ k < width.toNat * height.toNat, ∃ p, ((start width height).skip k).next = p ∧
      (pixels width height)[k]? = some p ∧ (p.x + 1).toNat = p.x.toNat + 1 ∧ (p.y + 1).toNat = p.y.toNat + 1 := by
  intro columnShare rowShare
  refine ⟨fun n => ?_, fun k hk => ⟨_, rfl, ?_, ?_⟩⟩
  · rw [take_start, List.map_map]
    refine List.map_congr_left fun k hk => ?_
    have hk : k < width.toNat * height.toNat := (Nat.lt_min.1 (List.mem_range.1 hk)).2
    simp only [Function.comp_apply, pixelAt, toNat_ofNat_of_lt (column_lt hk), toNat_ofNat_of_lt (row_lt hk),
      along_eq_iterate]
    rfl
  · rw [pixels_eq, skip_start hk, List.getElem?_map, List.getElem?_range hk]
    rfl
  · have hx := column_lt hk
    have hy := row_lt hk
    have hw := width.toNat_lt
    have hh := height.toNat_lt
    rw [skip_start hk, after, pixelAt]
    simp only [ofNat_succ hx, ofNat_succ hy, toNat_ofNat_of_lt hx, toNat_ofNat_of_lt hy]
    exact ⟨UInt32.toNat_ofNat_of_lt' (Nat.lt_of_le_of_lt hx hw), UInt32.toNat_ofNat_of_lt' (Nat.lt_of_le_of_lt hy hh)⟩

/-- The largest image there is has its last pixel, and the walk gets behind it without wrapping. -/
theorem visits_largest : 0xfffffffe00000000 < (0xffffffff : UInt32).toNat * (0xffffffff : UInt32).toNat ∧
    ∃ p, (pixels 0xffffffff 0xffffffff)[0xfffffffe00000000]? = some p ∧ (p.x + 1).toNat = p.x.toNat + 1 ∧
      (p.y + 1).toNat = p.y.toNat + 1 := by
  have hk : 0xfffffffe00000000 < (0xffffffff : UInt32).toNat * (0xffffffff : UInt32).toNat := by decide
  obtain ⟨p, -, hp, hx, hy⟩ := (visits_column_by_column 0xffffffff 0xffffffff).2 _ hk
  exact ⟨hk, p, hp, hx, hy⟩

end PixelShader.Walk
