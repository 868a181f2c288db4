import Mathlib
import PixelShader.Kernel.Layout
import PixelShader.Proofs.Samplers
/-!
# What a layout keeps

A slot of a frame is given to a register or to the selectors of a write mask, its tenant.  In a valid layout every slot
given out lies in the frame and no two tenants share one, so a frame is a valuation seen through the layout
(`Layout.view`), and to put a value into the slot of a cell is to update that valuation (`Layout.view_put`).  Giving out
a slot leaves everything that was laid out before where it was (`Grows`).
-/
namespace PixelShader.Kernel

/-! ## Frames -/

theorem Frame.get_push (f : Frame) (v : Quad) (n : Nat) :
    Frame.get (Array.push f v) n = if n = f.size then v else f.get n := by
  simp only [Frame.get, Array.getD_eq_getD_getElem?, Array.getElem?_push]
  split <;> rfl

theorem Frame.get_put (f : Frame) (v : Quad) {n : Nat} (m : Nat) (h : n < f.size) :
    (f.put n v).get m = if m = n then v else f.get m := by
  simp only [Frame.get, Frame.put, Array.getD_eq_getD_getElem?, Array.getElem?_setIfInBounds, h, if_true]
  by_cases hm : m = n
  · subst hm; simp
  · simp [hm, Ne.symm hm]

@[simp] theorem Frame.size_put (f : Frame) (n : Nat) (v : Quad) : (f.put n v).size = f.size :=
  Array.size_setIfInBounds

/-! ## Tenants -/

/-- What a slot is given to. -/
inductive Tenant where
  | cell (c : Cell)
  | mask (m : WriteMask)
  deriving DecidableEq

def Tenant.initial : Tenant → Quad
  | cell _ => .zero
  | mask m => m.lanes

namespace Layout

def slot? (l : Layout) : Tenant → Option Nat
  | .cell c => l.cell? c
  | .mask m => l.mask? m

/-- A frame as a valuation.  A cell without a slot is zero. -/
def view (l : Layout) (f : Frame) : Valuation := fun c => (l.cell? c).elim .zero f.get

def value (l : Layout) : Valuation := l.view l.entry

structure Valid (l : Layout) : Prop where
  lt : ∀ {k n}, l.slot? k = some n → n < l.entry.size
  inj : ∀ {j k n}, l.slot? j = some n → l.slot? k = some n → j = k
  mask : ∀ {m n}, l.mask? m = some n → Frame.get l.entry n = m.lanes
  external : ∀ {n s}, (n, s) ∈ l.externals → l.cell? ⟨.constant, s⟩ = some n

theorem valid_empty : ({} : Layout).Valid where
  lt {k n} h := by cases k <;> cases h
  inj {j k n} h := by cases j <;> cases h
  mask h := by cases h
  external h := by cases h

theorem Valid.cell_lt {l : Layout} (h : l.Valid) {c : Cell} {n : Nat} (hc : l.cell? c = some n) : n < l.entry.size :=
  h.lt (k := .cell c) hc

theorem Valid.cell_inj {l : Layout} (h : l.Valid) {c d : Cell} {n : Nat} (hc : l.cell? c = some n)
    (hd : l.cell? d = some n) : c = d := by
  have := h.inj (j := .cell c) (k := .cell d) hc hd
  cases this
  rfl

theorem Valid.cell_ne_mask {l : Layout} (h : l.Valid) {c : Cell} {m : WriteMask} {n k : Nat}
    (hc : l.cell? c = some n) (hm : l.mask? m = some k) : n ≠ k := by
  rintro rfl
  have := h.inj (j := .cell c) (k := .mask m) hc hm
  cases this

/-- **Putting a value into the slot of a cell updates the cell and nothing else.** -/
theorem view_put {l : Layout} (h : l.Valid) {f : Frame} {c : Cell} {n : Nat} (hc : l.cell? c = some n)
    (hn : n < f.size) (v : Quad) : l.view (f.put n v) = Function.update (l.view f) c v := by
  funext d
  by_cases hd : d = c
  · subst hd
    simp [view, hc, Frame.get_put f v n hn]
  · rw [Function.update_of_ne hd]
    unfold view
    cases hdn : l.cell? d with
    | none => rfl
    | some k =>
      have hk : k ≠ n := fun e => hd (h.cell_inj hdn (e ▸ hc))
      simp [Frame.get_put f v k hn, hk]

/-! ## Giving out a slot -/

structure Grows (l l' : Layout) : Prop where
  slot : ∀ {k n}, l.slot? k = some n → l'.slot? k = some n
  samplers : l.samplers <+: l'.samplers
  externals : l'.externals = l.externals
  valid : l.Valid → l'.Valid
  value : l.Valid → l'.value = l.value

theorem Grows.refl (l : Layout) : l.Grows l := ⟨id, List.prefix_rfl, rfl, id, fun _ => rfl⟩

theorem Grows.trans {l₁ l₂ l₃ : Layout} (h : l₁.Grows l₂) (h' : l₂.Grows l₃) : l₁.Grows l₃ where
  slot hk := h'.slot (h.slot hk)
  samplers := h.samplers.trans h'.samplers
  externals := h'.externals.trans h.externals
  valid hv := h'.valid (h.valid hv)
  value hv := (h'.value (h.valid hv)).trans (h.value hv)

theorem Grows.cell {l l' : Layout} (h : l.Grows l') {c : Cell} {n : Nat} (hc : l.cell? c = some n) :
    l'.cell? c = some n := h.slot (k := .cell c) hc

theorem Grows.mask {l l' : Layout} (h : l.Grows l') {m : WriteMask} {n : Nat} (hm : l.mask? m = some n) :
    l'.mask? m = some n := h.slot (k := .mask m) hm

/-- One layout is another with a new tenant in the slot at its end. -/
structure Admits (l l' : Layout) (k : Tenant) : Prop where
  fresh : l.slot? k = none
  entry : l'.entry = l.entry.push k.initial
  slot : ∀ j, l'.slot? j = if j = k then some l.entry.size else l.slot? j
  samplers : l'.samplers = l.samplers
  externals : l'.externals = l.externals

section
variable {l l' : Layout} {k : Tenant}

theorem Admits.slot_stays (a : l.Admits l' k) {j : Tenant} {n : Nat} (hj : l.slot? j = some n) :
    l'.slot? j = some n := by
  have hjk : j ≠ k := by
    rintro rfl
    rw [a.fresh] at hj
    cases hj
  rw [a.slot, if_neg hjk, hj]

theorem Admits.get_entry (a : l.Admits l' k) (h : l.Valid) {j : Tenant} {n : Nat} (hj : l'.slot? j = some n) :
    Frame.get l'.entry n = if j = k then k.initial else Frame.get l.entry n := by
  rw [a.entry, Frame.get_push]
  rw [a.slot] at hj
  split at hj
  · rename_i hjk
    cases hj
    rw [if_pos rfl, if_pos hjk]
  · rename_i hjk
    rw [if_neg (Nat.ne_of_lt (h.lt hj)), if_neg hjk]

theorem Admits.valid (a : l.Admits l' k) (h : l.Valid) : l'.Valid where
  lt {j n} hj := by
    rw [a.slot] at hj
    rw [a.entry, Array.size_push]
    split at hj
    · cases hj
      exact Nat.lt_succ_self _
    · exact Nat.lt_succ_of_lt (h.lt hj)
  inj {i j n} hi hj := by
    rw [a.slot] at hi hj
    split at hi <;> split at hj
    · rename_i hik hjk
      rw [hik, hjk]
    · cases hi
      exact absurd (h.lt hj) (Nat.lt_irrefl _)
    · cases hj
      exact absurd (h.lt hi) (Nat.lt_irrefl _)
    · exact h.inj hi hj
  mask {m n} hm := by
    have hs : l'.slot? (.mask m) = some n := hm
    rw [a.get_entry h hs]
    split
    · rename_i hmk
      rw [← hmk]
      rfl
    · rename_i hmk
      rw [a.slot, if_neg hmk] at hs
      exact h.mask hs
  external {n s} hns := by
    rw [a.externals] at hns
    exact a.slot_stays (j := .cell ⟨.constant, s⟩) (h.external hns)

theorem Admits.value (a : l.Admits l' k) (h : l.Valid) : l'.value = l.value := by
  funext c
  have hs := a.slot (.cell c)
  by_cases hc : Tenant.cell c = k
  · -- a cell that had no slot was zero, and its new slot is
    have hf : l.cell? c = none := by rw [← hc] at a; exact a.fresh
    rw [if_pos hc] at hs
    have hg := a.get_entry h hs
    rw [if_pos hc, ← hc] at hg
    simp only [Layout.value, view, hf, show l'.cell? c = some l.entry.size from hs, Option.elim_some, Option.elim_none]
    exact hg
  · rw [if_neg hc] at hs
    simp only [Layout.value, view, show l'.cell? c = l.cell? c from hs]
    cases hn : l.cell? c with
    | none => rfl
    | some n =>
      have hg := a.get_entry h (hs.trans hn)
      rw [if_neg hc] at hg
      exact hg

theorem Admits.grows (a : l.Admits l' k) : l.Grows l' where
  slot hj := a.slot_stays hj
  samplers := by rw [a.samplers]
  externals := a.externals
  valid := a.valid
  value := a.value

end

/-! ## Cells, masks and samplers -/

theorem cell_cases (c : Cell) (l : Layout) : (∃ n, l.cell? c = some n ∧ l.cell c = (n, l)) ∨
    (l.cell c).1 = l.entry.size ∧ l.Admits (l.cell c).2 (.cell c) := by
  unfold cell
  cases hc : l.cell? c with
  | some n => exact .inl ⟨n, rfl, rfl⟩
  | none =>
    refine .inr ⟨rfl, hc, rfl, fun j => ?_, rfl, rfl⟩
    cases j with
    | mask m => rfl
    | cell d =>
      by_cases hd : d = c
      · subst hd; simp [slot?, cell?]
      · have hb : (d == c) = false := by simpa using hd
        simp [slot?, cell?, List.lookup_cons, hb, hd]

theorem cell_grows (c : Cell) (l : Layout) : l.Grows (l.cell c).2 ∧ (l.cell c).2.cell? c = some (l.cell c).1 := by
  rcases cell_cases c l with ⟨n, hc, he⟩ | ⟨he, a⟩
  · rw [he]
    exact ⟨.refl l, hc⟩
  · refine ⟨a.grows, ?_⟩
    have hs := a.slot (.cell c)
    rw [if_pos rfl, ← he] at hs
    exact hs

theorem samplers_cell (c : Cell) (l : Layout) : (l.cell c).2.samplers = l.samplers := by
  unfold cell
  cases l.cell? c <;> rfl

theorem mask_cases (m : WriteMask) (l : Layout) : (∃ n, l.mask? m = some n ∧ l.mask m = (n, l)) ∨
    (l.mask m).1 = l.entry.size ∧ l.Admits (l.mask m).2 (.mask m) := by
  unfold mask
  cases hm : l.mask? m with
  | some n => exact .inl ⟨n, rfl, rfl⟩
  | none =>
    refine .inr ⟨rfl, hm, rfl, fun j => ?_, rfl, rfl⟩
    cases j with
    | cell d => rfl
    | mask m' =>
      by_cases hd : m' = m
      · subst hd; simp [slot?, mask?]
      · have hb : (m' == m) = false := by simpa using hd
        simp [slot?, mask?, List.lookup_cons, hb, hd]

theorem mask_grows (m : WriteMask) (l : Layout) : l.Grows (l.mask m).2 ∧ (l.mask m).2.mask? m = some (l.mask m).1 := by
  rcases mask_cases m l with ⟨n, hm, he⟩ | ⟨he, a⟩
  · rw [he]
    exact ⟨.refl l, hm⟩
  · refine ⟨a.grows, ?_⟩
    have hs := a.slot (.mask m)
    rw [if_pos rfl, ← he] at hs
    exact hs

theorem samplers_mask (m : WriteMask) (l : Layout) : (l.mask m).2.samplers = l.samplers := by
  unfold mask
  cases l.mask? m <;> rfl

theorem sampler_grows (s : Slot) (l : Layout) :
    l.Grows (l.sampler s).2 ∧ (l.sampler s).2.samplers = noteNew l.samplers s ∧
      (l.sampler s).2.samplers[(l.sampler s).1]? = some s := by
  unfold sampler
  cases hs : l.samplers.idxOf? s with
  | some n =>
    obtain ⟨hn, hns, -⟩ := List.idxOf?_eq_some_iff.1 hs
    refine ⟨.refl l, ?_, ?_⟩
    · rw [noteNew_of_mem (hns ▸ List.getElem_mem hn)]
    · rw [List.getElem?_eq_getElem hn, hns]
  | none =>
    refine ⟨⟨id, List.prefix_append _ _, rfl, ?_, fun _ => rfl⟩, ?_, ?_⟩
    · exact fun h => ⟨h.lt, h.inj, h.mask, h.external⟩
    · rw [noteNew_of_notMem (List.idxOf?_eq_none_iff.1 hs)]
    · simp

/-! ## Constants -/

theorem define_spec {l : Layout} (h : l.Valid) (s : Slot) (v : Quad) :
    (l.define s v).Valid ∧ (l.define s v).value = Function.update l.value ⟨.constant, s⟩ v ∧
      (l.define s v).externals = l.externals ∧ (l.define s v).samplers = l.samplers := by
  obtain ⟨hg, hc⟩ := cell_grows ⟨.constant, s⟩ l
  have hv := hg.valid h
  have hn := hv.cell_lt hc
  refine ⟨⟨?_, hv.inj, ?_, hv.external⟩, ?_, hg.externals, samplers_cell _ l⟩
  · intro k n hk
    show n < ((l.cell ⟨.constant, s⟩).2.entry.setIfInBounds _ v).size
    rw [Array.size_setIfInBounds]
    exact hv.lt hk
  · intro m n hm
    have hne : n ≠ (l.cell ⟨.constant, s⟩).1 := Ne.symm (hv.cell_ne_mask hc hm)
    have hp := Frame.get_put (l.cell ⟨.constant, s⟩).2.entry v n hn
    rw [if_neg hne] at hp
    exact hp.trans (hv.mask hm)
  · rw [← hg.value h]
    exact view_put hv hc hn v

theorem takeExternal_spec {l : Layout} (h : l.Valid) (s : Slot) :
    (l.takeExternal s).Valid ∧ (l.takeExternal s).value = l.value ∧
      (l.takeExternal s).externals.map Prod.snd = l.externals.map Prod.snd ++ [s] ∧
      (l.takeExternal s).samplers = l.samplers := by
  obtain ⟨hg, hc⟩ := cell_grows ⟨.constant, s⟩ l
  have hv := hg.valid h
  refine ⟨⟨hv.lt, hv.inj, hv.mask, ?_⟩, hg.value h, ?_, samplers_cell _ l⟩
  · intro n s' hns
    rcases List.mem_append.1 hns with hns | hns
    · exact hv.external hns
    · cases List.mem_singleton.1 hns
      exact hc
  · show ((l.cell ⟨.constant, s⟩).2.externals ++ [_]).map Prod.snd = _
    rw [List.map_append, hg.externals]
    rfl

end Layout
end PixelShader.Kernel
