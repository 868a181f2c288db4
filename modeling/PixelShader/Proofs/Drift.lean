import Mathlib
import PixelShader.Proofs.Lane.Nearest
/-!
# How far repeated addition drifts

A coordinate goes from 0 to 1 by `n` additions of a rounded `1 / n`, each of them rounded.  In units of `2 ^ -40`, with a
whole of `2 ^ 40`, the `k`-th coordinate `path q k` should stay in its own part of the way, between `k` and `k + 1`
wholes when multiplied by `n` (`Stays.owns`).

The error of a single addition depends on where on the way it is made, and on a stretch where the last bit stays the same
it is the same each time, a tie apart.  So each stretch of the way has a toll, which is what an addition on it costs at
most, and no more tolls can be due on a stretch than additions fit into it (`Stretch.Covers.paid_add_le`).  The sum of
all tolls bounds the drift (`step_drift`), and whether it is below half a part can be computed (`Stays`).

Where the drift is too large, the coordinates themselves can be computed: the additions on a stretch are made at once
(`path_leaps`).
-/
namespace PixelShader.Drift

/-! ## Tolls -/

/-- A stretch of the way.  An addition on it advances by the stride at least and costs the toll at most, and the one that
enters it costs the entry at most. -/
structure Stretch where
  start : Nat
  stop : Nat
  stride : Nat
  toll : Nat
  entry : Nat

namespace Stretch

/-- What may have been paid on a stretch when `a` is reached. -/
def paid (s : Stretch) (a : Nat) : Nat :=
  if a < s.start then 0 else s.entry + s.toll * ((min a s.stop - s.start) / s.stride)

def fare (s : Stretch) : Nat := s.entry + s.toll * ((s.stop - s.start) / s.stride)

/-- The stretch has a price for an addition that leads from `a` to `b`. -/
inductive Covers (s : Stretch) (a b cost : Nat) : Prop where
  | entering (ha : a < s.start) (hb : s.start ≤ b) (hcost : cost ≤ s.entry)
  | within (ha : s.start ≤ a) (hb : b ≤ s.stop) (hpos : 0 < s.stride) (hstride : a + s.stride ≤ b) (hcost : cost ≤ s.toll)

variable {s : Stretch} {a b cost : Nat}

theorem paid_of_le (h : s.start ≤ a) : s.paid a = s.entry + s.toll * ((min a s.stop - s.start) / s.stride) :=
  if_neg (Nat.not_lt.2 h)

theorem paid_mono (s : Stretch) (h : a ≤ b) : s.paid a ≤ s.paid b := by
  by_cases ha : a < s.start
  · rw [paid, if_pos ha]
    exact Nat.zero_le _
  · rw [paid_of_le (by omega), paid_of_le (by omega)]
    have hdiv : (min a s.stop - s.start) / s.stride ≤ (min b s.stop - s.start) / s.stride :=
      Nat.div_le_div_right (by omega)
    exact Nat.add_le_add_left (Nat.mul_le_mul_left _ hdiv) _

theorem paid_le_fare (s : Stretch) (a : Nat) : s.paid a ≤ s.fare := by
  by_cases ha : a < s.start
  · rw [paid, if_pos ha]
    exact Nat.zero_le _
  · rw [paid_of_le (by omega), fare]
    have hdiv : (min a s.stop - s.start) / s.stride ≤ (s.stop - s.start) / s.stride := Nat.div_le_div_right (by omega)
    exact Nat.add_le_add_left (Nat.mul_le_mul_left _ hdiv) _

/-- **What an addition costs is paid.** -/
theorem Covers.paid_add_le (h : s.Covers a b cost) : s.paid a + cost ≤ s.paid b := by
  cases h with
  | entering ha hb hcost =>
    rw [paid, if_pos ha, paid_of_le hb, Nat.zero_add]
    exact Nat.le_trans hcost (Nat.le_add_right _ _)
  | within ha hb hpos hstride hcost =>
    rw [paid_of_le ha, paid_of_le (by omega), Nat.min_eq_left (by omega), Nat.min_eq_left hb]
    have hone : (a - s.start) / s.stride + 1 ≤ (b - s.start) / s.stride := by
      rw [← Nat.add_div_right _ hpos]
      exact Nat.div_le_div_right (by omega)
    have hmul := Nat.mul_le_mul_left s.toll hone
    rw [Nat.mul_add, Nat.mul_one] at hmul
    omega

end Stretch

def paidOn (ss : List Stretch) (a : Nat) : Nat := (ss.map (·.paid a)).sum

def fares (ss : List Stretch) : Nat := (ss.map Stretch.fare).sum

section
variable {a b cost : Nat}

theorem paidOn_cons (s : Stretch) (ss : List Stretch) (a : Nat) : paidOn (s :: ss) a = s.paid a + paidOn ss a := by
  rw [paidOn, List.map_cons, List.sum_cons]
  rfl

theorem paidOn_mono (h : a ≤ b) : ∀ ss : List Stretch, paidOn ss a ≤ paidOn ss b
  | [] => Nat.le_refl _
  | s :: ss => by
    rw [paidOn_cons, paidOn_cons]
    exact Nat.add_le_add (s.paid_mono h) (paidOn_mono h ss)

theorem paidOn_le_fares (a : Nat) : ∀ ss : List Stretch, paidOn ss a ≤ fares ss
  | [] => Nat.le_refl _
  | s :: ss => by
    rw [paidOn_cons, fares, List.map_cons, List.sum_cons]
    exact Nat.add_le_add (s.paid_le_fare a) (paidOn_le_fares a ss)

theorem paidOn_add_le {s : Stretch} (hc : s.Covers a b cost) (hab : a ≤ b) : ∀ ss : List Stretch, s ∈ ss →
    paidOn ss a + cost ≤ paidOn ss b
  | t :: ss, hs => by
    rw [paidOn_cons, paidOn_cons]
    rcases List.mem_cons.1 hs with rfl | hs
    · have := hc.paid_add_le
      have := paidOn_mono hab ss
      omega
    · have := t.paid_mono hab
      have := paidOn_add_le hc hab ss hs
      omega

end

/-! ## The way from 0 to 1 -/

/-- What the addition of `q` adds at least, where `h` is the last bit. -/
def least (q h : Nat) : Nat := if 2 * (q % h) = h then q - h / 2 else roundDiv q h * h

def most (q h : Nat) : Nat := if 2 * (q % h) = h then q + h / 2 else roundDiv q h * h

def binade (cost : Nat → Nat → Nat) (q h : Nat) : Stretch where
  start := 0x800000 * h
  stop := 0x1000000 * h
  stride := least q h
  toll := cost (least q h) (most q h)
  entry := cost (q - h / 2) (q + h / 2)

def first (cost : Nat → Nat → Nat) (q h : Nat) : Stretch where
  start := 0
  stop := 0x1000000 * h
  stride := q - h / 2
  toll := cost (q - h / 2) (q + h / 2)
  entry := 0

/-- The whole way in stretches, of which all but the first have one last bit.  An addition that adds between `lo` and
`hi` is given the price `cost lo hi`. -/
def way (cost : Nat → Nat → Nat) (q i : Nat) : List Stretch :=
  first cost q (2 ^ i) :: (List.range' (i + 1) (16 - i)).map fun j => binade cost q (2 ^ j)

section
variable {a q i j : Nat}

theorem half_pow (hj : 1 ≤ j) : 2 ^ j = 2 * (2 ^ j / 2) := by
  obtain ⟨t, rfl⟩ := Nat.exists_eq_add_of_le hj
  rw [Nat.pow_add, Nat.pow_one, Nat.mul_div_cancel_left _ Nat.two_pos]

theorem rough_bounds (hj : 1 ≤ j) (hq : 2 ^ j ≤ q) (hhi : a + q < 2 ^ (24 + j)) :
    a + (q - 2 ^ j / 2) ≤ nearest (a + q) ∧ nearest (a + q) ≤ a + (q + 2 ^ j / 2) := by
  have hhalf := half_pow hj
  have hup := nearest_le hhi
  have hdown := le_nearest hhi
  omega

/-- **On a stretch with one last bit an addition always adds the same**, unless it is a tie. -/
theorem sharp_bounds (hj : 1 ≤ j) (hq : 2 ^ j ≤ q) (ha : 2 ^ j ∣ a) (hlo : 2 ^ (23 + j) ≤ a + q)
    (hhi : a + q < 2 ^ (24 + j)) :
    a + least q (2 ^ j) ≤ nearest (a + q) ∧ nearest (a + q) ≤ a + most q (2 ^ j) := by
  unfold least most
  by_cases htie : 2 * (q % 2 ^ j) = 2 ^ j
  · rw [if_pos htie, if_pos htie]
    exact rough_bounds hj hq hhi
  · obtain ⟨c, rfl⟩ := ha
    rw [if_neg htie, if_neg htie, nearest_eq hlo hhi, Nat.mul_comm (2 ^ j) c,
      roundDiv_mul_add (Nat.two_pow_pos j) c htie, Nat.add_mul]
    exact ⟨Nat.le_refl _, Nat.le_refl _⟩

theorem least_pos (hq : 2 ^ j ≤ q) : 0 < least q (2 ^ j) := by
  have hpos := Nat.two_pow_pos j
  unfold least
  split
  · omega
  · have hdiv : 1 ≤ q / 2 ^ j := (Nat.le_div_iff_mul_le hpos).2 (by omega)
    exact Nat.mul_pos (Nat.le_trans hdiv (div_le_roundDiv _ _)) hpos

/-- **Every addition on the way has its price on one of the stretches.** -/
theorem exists_covers (cost : Nat → Nat → Nat) (hi : 1 ≤ i) (hi' : i ≤ 16) (hq : 2 ^ 16 ≤ q) (ha : Fits a)
    (haq : a + q < 2 ^ 40) :
    ∃ s ∈ way cost q i, ∃ lo hi, a + lo ≤ nearest (a + q) ∧ nearest (a + q) ≤ a + hi ∧
      s.Covers a (nearest (a + q)) (cost lo hi) := by
  have hqj : ∀ j, j ≤ 16 → 2 ^ j ≤ q := fun j hj => Nat.le_trans (Nat.pow_le_pow_right (by omega) hj) hq
  by_cases hfirst : a + q < 2 ^ (24 + i)
  · obtain ⟨hlo, hhi⟩ := rough_bounds hi (hqj i hi') hfirst
    have hstop : nearest (a + q) ≤ 0x1000000 * 2 ^ i := by
      rw [show 0x1000000 = 2 ^ 24 from rfl, ← Nat.pow_add]
      exact nearest_le_two_pow hfirst
    have hpos : 0 < q - 2 ^ i / 2 := by
      have := hqj i hi'
      have := Nat.two_pow_pos i
      omega
    exact ⟨first cost q (2 ^ i), List.mem_cons_self, _, _, hlo, hhi,
      .within (Nat.zero_le a) hstop hpos hlo (Nat.le_refl _)⟩
  · obtain ⟨j, hlo, hhi⟩ := exists_bounds (show 2 ^ 23 ≤ a + q from
      Nat.le_trans (Nat.pow_le_pow_right (by omega) (by omega)) (Nat.not_lt.1 hfirst))
    have hij : 24 + i < 24 + j :=
      (Nat.pow_lt_pow_iff_right (by omega)).1 (Nat.lt_of_le_of_lt (Nat.not_lt.1 hfirst) hhi)
    have hj : 23 + j < 40 := (Nat.pow_lt_pow_iff_right (by omega)).1 (Nat.lt_of_le_of_lt hlo haq)
    have hmem : binade cost q (2 ^ j) ∈ way cost q i :=
      List.mem_cons_of_mem _ (List.mem_map.2 ⟨j, List.mem_range'_1.2 (by omega), rfl⟩)
    have hstart : (binade cost q (2 ^ j)).start = 2 ^ (23 + j) := by
      rw [Nat.pow_add]
      rfl
    have hstop : (binade cost q (2 ^ j)).stop = 2 ^ (24 + j) := by
      rw [Nat.pow_add]
      rfl
    rcases Nat.lt_or_ge a (2 ^ (23 + j)) with hbelow | habove
    · obtain ⟨hlo', hhi'⟩ := rough_bounds (by omega) (hqj j (by omega)) hhi
      exact ⟨_, hmem, _, _, hlo', hhi', .entering (by rwa [hstart]) (by rw [hstart]; exact le_nearest_of_bounds hlo hhi)
        (Nat.le_refl _)⟩
    · obtain ⟨hlo', hhi'⟩ := sharp_bounds (by omega) (hqj j (by omega)) (ha j habove) hlo hhi
      exact ⟨_, hmem, _, _, hlo', hhi', .within (by rwa [hstart]) (by rw [hstop]; exact nearest_le_of_bounds hlo hhi)
        (least_pos (hqj j (by omega))) hlo' (Nat.le_refl _)⟩

end

/-! ## Drift -/

/-- The coordinate after `k` additions of `q`, from half of it on. -/
def path (q : Nat) : Nat → Nat
  | 0 => q / 2
  | k + 1 => nearest (path q k + q)

/-- What an addition falls behind at most, on a way of `n` parts. -/
def lose (n lo _ : Nat) : Nat := 0x10000000000 - n * lo

def gain (n _ hi : Nat) : Nat := n * hi - 0x10000000000

/-- The drift on a way of `n` parts stays below half a part, with the way divided at the last bit `2 ^ i`. -/
structure Stays (n q i : Nat) : Prop where
  low : fares (way (lose n) q i) + 0x20000000 ≤ q / 2 * n
  high : q / 2 * n + fares (way (gain n) q i) + 0x20000000 ≤ 0x10000000000
  part : q * n < 0x10020000000

instance (n q i : Nat) : Decidable (Stays n q i) :=
  decidable_of_iff (_ ∧ _ ∧ _) ⟨fun ⟨hl, hh, hp⟩ => ⟨hl, hh, hp⟩, fun ⟨hl, hh, hp⟩ => ⟨hl, hh, hp⟩⟩

section
variable {n q i : Nat}

theorem fits_path (h : Fits (q / 2)) : ∀ k, Fits (path q k)
  | 0 => h
  | _ + 1 => fits_nearest _

theorem nearest_add_lt (hs : Stays n q i) {k a : Nat} (hk : k + 1 < n) (ha : a * n + 0x20000000 ≤ (k + 1) * 0x10000000000) :
    a + q < 2 ^ 40 := by
  have hpart := hs.part
  have hk' : (k + 2) * 0x10000000000 ≤ n * 0x10000000000 := Nat.mul_le_mul_right _ hk
  refine Nat.lt_of_mul_lt_mul_right (a := n) ?_
  rw [Nat.add_mul]
  omega

/-- **One addition**: what the coordinate falls behind or runs ahead is paid for. -/
theorem step_drift (hi : 1 ≤ i) (hi' : i ≤ 16) (hq : 2 ^ 16 ≤ q) {a : Nat} (ha : Fits a) (haq : a + q < 2 ^ 40) :
    a * n + 0x10000000000 + paidOn (way (lose n) q i) a ≤
        nearest (a + q) * n + paidOn (way (lose n) q i) (nearest (a + q)) ∧
      nearest (a + q) * n + paidOn (way (gain n) q i) a ≤
        a * n + 0x10000000000 + paidOn (way (gain n) q i) (nearest (a + q)) := by
  constructor
  · obtain ⟨s, hs, lo, hi, hlo, -, hc⟩ := exists_covers (lose n) hi hi' hq ha haq
    have hpaid := paidOn_add_le hc (by omega) _ hs
    have hmul := Nat.mul_le_mul_right n hlo
    rw [Nat.add_mul, Nat.mul_comm lo] at hmul
    rw [show lose n lo hi = 0x10000000000 - n * lo from rfl] at hpaid
    omega
  · obtain ⟨s, hs, lo, hi, hlo, hhi, hc⟩ := exists_covers (gain n) hi hi' hq ha haq
    have hpaid := paidOn_add_le hc (by omega) _ hs
    have hmul := Nat.mul_le_mul_right n hhi
    rw [Nat.add_mul, Nat.mul_comm hi] at hmul
    rw [show gain n lo hi = n * hi - 0x10000000000 from rfl] at hpaid
    omega

/-- **Every coordinate stays in its own part of the way.** -/
theorem Stays.owns (hs : Stays n q i) (hi : 1 ≤ i) (hi' : i ≤ 16) (hq : 2 ^ 16 ≤ q) (hf : Fits (q / 2)) {k : Nat}
    (hk : k < n) :
    k * 0x10000000000 + 0x20000000 ≤ path q k * n ∧ path q k * n + 0x20000000 ≤ (k + 1) * 0x10000000000 := by
  have hrun : ∀ k, k < n →
      k * 0x10000000000 + q / 2 * n ≤ path q k * n + paidOn (way (lose n) q i) (path q k) ∧
        path q k * n ≤ k * 0x10000000000 + q / 2 * n + paidOn (way (gain n) q i) (path q k) := by
    intro k hk
    induction k with
    | zero =>
      rw [Nat.zero_mul, Nat.zero_add]
      exact ⟨Nat.le_add_right _ _, Nat.le_add_right _ _⟩
    | succ k ih =>
      obtain ⟨hlow, hhigh⟩ := ih (by omega)
      have hfare := paidOn_le_fares (path q k) (way (gain n) q i)
      have htop := hs.high
      have haq : path q k + q < 2 ^ 40 := nearest_add_lt hs hk (by omega)
      obtain ⟨hlose, hgain⟩ := step_drift (n := n) hi hi' hq (fits_path hf k) haq
      rw [path, Nat.add_mul, Nat.one_mul]
      omega
  obtain ⟨hlow, hhigh⟩ := hrun k hk
  have hlose := paidOn_le_fares (path q k) (way (lose n) q i)
  have hgain := paidOn_le_fares (path q k) (way (gain n) q i)
  have hl := hs.low
  have hh := hs.high
  omega

end

/-! ## Leaps -/

def leap (q a i t : Nat) : Nat := roundDiv (a + q) (2 ^ i) * 2 ^ i + t * (roundDiv q (2 ^ i) * 2 ^ i)

/-- All additions of a leap have the same last bit, and all but the first add the same. -/
def CanLeap (q a i t : Nat) : Prop :=
  2 ^ (23 + i) ≤ a + q ∧ a + q + t * (roundDiv q (2 ^ i) * 2 ^ i) + 2 ^ i < 2 ^ (24 + i) ∧
    (t = 0 ∨ 2 * (q % 2 ^ i) ≠ 2 ^ i)

instance (q a i t : Nat) : Decidable (CanLeap q a i t) := inferInstanceAs (Decidable (_ ∧ _ ∧ _))

def leaps (q : Nat) : Nat → List (Nat × Nat) → Option Nat
  | a, [] => some a
  | a, (i, t) :: rest => if CanLeap q a i t then leaps q (leap q a i t) rest else none

section
variable {q k i t : Nat}

/-- **Additions that have the same last bit can be made at once.** -/
theorem path_leap (h : CanLeap q (path q k) i t) : path q (k + 1 + t) = leap q (path q k) i t := by
  obtain ⟨hlo, hhi, htie⟩ := h
  have hpos := Nat.two_pow_pos i
  induction t with
  | zero =>
    rw [leap, Nat.zero_mul, Nat.add_zero]
    exact nearest_eq hlo (by omega)
  | succ t ih =>
    have htie : 2 * (q % 2 ^ i) ≠ 2 ^ i := by omega
    rw [Nat.add_mul, Nat.one_mul] at hhi
    have hq := le_roundDiv_mul hpos q
    have hland := roundDiv_mul_le (path q k + q) (2 ^ i)
    have hland' : 2 ^ (23 + i) ≤ roundDiv (path q k + q) (2 ^ i) * 2 ^ i := by
      rw [Nat.pow_add]
      exact Nat.mul_le_mul_right _ (le_roundDiv_of_bounds hlo)
    have hsplit : leap q (path q k) i t = (roundDiv (path q k + q) (2 ^ i) + t * roundDiv q (2 ^ i)) * 2 ^ i := by
      rw [leap, Nat.add_mul, Nat.mul_assoc]
    have hsum : leap q (path q k) i t + q < 2 ^ (24 + i) ∧ 2 ^ (23 + i) ≤ leap q (path q k) i t + q := by
      unfold leap
      omega
    rw [← Nat.add_assoc, path, ih (by omega) (.inr htie), nearest_eq hsum.2 hsum.1, hsplit,
      roundDiv_mul_add hpos _ htie, leap]
    ring

theorem path_leaps : ∀ {k a : Nat} {l : List (Nat × Nat)}, leaps q (path q k) l = some a →
    path q (k + (l.map fun s => 1 + s.2).sum) = a
  | _, _, [], h => Option.some.inj h
  | k, a, (i, t) :: rest, h => by
    rw [leaps] at h
    split at h
    · rename_i hcan
      rw [← path_leap hcan] at h
      rw [List.map_cons, List.sum_cons, ← Nat.add_assoc, ← Nat.add_assoc]
      exact path_leaps h
    · cases h

end

end PixelShader.Drift
