import Mathlib
import PixelShader.Proofs.Kernel.Lowering
/-!
# What a compiled program is made of

A kernel is made in three passes over one layout that grows.  `compile_spec` says what is left at the end, without the
passes: a valid layout whose cells start with the definitions of the program made, the constants and samplers it takes
from the bindings, and one step for every instruction that computes.
-/
namespace PixelShader

namespace Kernel

/-! ## Declarations -/

def Layout.declare (l : Layout) : Declared → Layout
  | .constant s value => l.define s value
  | .coordinate => (l.cell .coordinate).2
  | .sampler _ | .nothing => l

theorem declareAll_cons (ds : Declarations) (l : Layout) (index : Nat) (i : Instruction) (is : List Instruction) :
    declareAll ds l index (i :: is) = match ds.add i.operation with
      | .error objection => .error (.unsupported index i objection)
      | .ok (declared, ds') => declareAll ds' (l.declare declared) (index + 1) is := by
  rw [declareAll]
  cases ds.add i.operation with
  | error o => rfl
  | ok x => obtain ⟨declared, ds'⟩ := x; cases declared <;> rfl

theorem Layout.declare_spec {l : Layout} (h : l.Valid) (declared : Declared) :
    (l.declare declared).Valid ∧ (l.declare declared).value = declared.define l.value ∧
      (l.declare declared).externals = l.externals ∧ (l.declare declared).samplers = l.samplers := by
  cases declared with
  | constant s value => exact Layout.define_spec h s value
  | coordinate =>
    obtain ⟨hg, -⟩ := Layout.cell_grows .coordinate l
    exact ⟨hg.valid h, hg.value h, hg.externals, Layout.samplers_cell _ l⟩
  | sampler s => exact ⟨h, rfl, rfl, rfl⟩
  | nothing => exact ⟨h, rfl, rfl, rfl⟩

theorem declareAll_spec : ∀ (is : List Instruction) (ds : Declarations) (l l' : Layout) (index : Nat),
    declareAll ds l index is = .ok l' → l.Valid →
      l'.Valid ∧ l'.value = defineAll is l.value ∧ l'.externals = l.externals ∧ l'.samplers = l.samplers
  | [], _, l, l', _, h, hv => by
    cases h
    exact ⟨hv, rfl, rfl, rfl⟩
  | i :: is, ds, l, l', index, h, hv => by
    rw [declareAll_cons] at h
    split at h
    · cases h
    · rename_i declared ds' ha
      obtain ⟨hv₁, hval₁, hx₁, hs₁⟩ := Layout.declare_spec hv declared
      obtain ⟨hv₂, hval₂, hx₂, hs₂⟩ := declareAll_spec is ds' _ l' (index + 1) h hv₁
      refine ⟨hv₂, ?_, hx₂.trans hx₁, hs₂.trans hs₁⟩
      rw [hval₂, hval₁, defineAll_cons, (Declarations.add_spec ha).2]

theorem takeExternals_spec : ∀ (ss : List Slot) (l : Layout), l.Valid →
    (ss.foldl Layout.takeExternal l).Valid ∧ (ss.foldl Layout.takeExternal l).value = l.value ∧
      (ss.foldl Layout.takeExternal l).externals.map Prod.snd = l.externals.map Prod.snd ++ ss ∧
      (ss.foldl Layout.takeExternal l).samplers = l.samplers
  | [], l, hv => ⟨hv, rfl, by simp, rfl⟩
  | s :: ss, l, hv => by
    obtain ⟨hv', hval, hx, hs⟩ := Layout.takeExternal_spec hv s
    obtain ⟨hv'', hval', hx', hs'⟩ := takeExternals_spec ss (l.takeExternal s) hv'
    rw [List.foldl_cons]
    refine ⟨hv'', hval'.trans hval, ?_, hs'.trans hs⟩
    rw [hx', hx, List.append_assoc]
    rfl

theorem masks_grows : ∀ (ms : List WriteMask) (l : Layout),
    l.Grows (ms.foldl (fun l m => (l.mask m).2) l) ∧ (ms.foldl (fun l m => (l.mask m).2) l).samplers = l.samplers
  | [], l => ⟨.refl l, rfl⟩
  | m :: ms, l => by
    obtain ⟨hg, hs⟩ := masks_grows ms (l.mask m).2
    rw [List.foldl_cons]
    exact ⟨(Layout.mask_grows m l).1.trans hg, hs.trans (Layout.samplers_mask m l)⟩

theorem header_spec {p : Program} {l : Layout} (h : header p = .ok l) :
    l.Valid ∧ l.value = defineAll p.instructions (fun _ => .zero) ∧
      l.externals.map Prod.snd = p.externalConstants ∧ l.samplers = [] := by
  simp only [header, except_bind_eq_ok, pure, Except.pure, Except.ok.injEq] at h
  obtain ⟨l₀, h₀, rfl⟩ := h
  obtain ⟨hv₀, hval₀, hx₀, hs₀⟩ := declareAll_spec _ _ _ _ _ h₀ Layout.valid_empty
  obtain ⟨hv₁, hval₁, hx₁, hs₁⟩ := takeExternals_spec p.externalConstants l₀ hv₀
  obtain ⟨hg, hs₂⟩ := masks_grows p.partialMasks (p.externalConstants.foldl Layout.takeExternal l₀)
  refine ⟨hg.valid hv₁, ?_, ?_, ?_⟩
  · rw [hg.value hv₁, hval₁, hval₀]
    rfl
  · rw [hg.externals, hx₁, hx₀]
    rfl
  · rw [hs₂, hs₁, hs₀]

/-! ## Steps -/

inductive Layout.LowersAll (l : Layout) : List Instruction → List Step → Prop
  | nil : LowersAll l [] []
  | cons {i is s ss} : l.Lowers i.operation s → LowersAll l is ss → LowersAll l (i :: is) (s.toList ++ ss)

theorem lowerAll_spec : ∀ (is : List Instruction) (l l' : Layout) (index : Nat) (done steps : Array Step),
    lowerAll l index done is = .ok (steps, l') →
      l.Grows l' ∧ l'.samplers = is.foldl (fun slots i => i.operation.note slots) l.samplers ∧
        (∀ i ∈ is, i.operation.Supported) ∧ ∃ ss, steps.toList = done.toList ++ ss ∧ l'.LowersAll is ss
  | [], l, l', _, done, steps, h => by
    cases h
    exact ⟨.refl l, rfl, fun i hi => (by cases hi), [], by simp, .nil⟩
  | i :: is, l, l', index, done, steps, h => by
    unfold lowerAll at h
    split at h
    · cases h
    · rename_i step l₁ hs
      obtain ⟨hg, hl, hn⟩ := Lower.operation_spec hs
      obtain ⟨hg', hn', hsup, ss, hss, hall⟩ := lowerAll_spec is l₁ l' (index + 1) _ steps h
      refine ⟨hg.trans hg', ?_, fun j hj => ?_, step.toList ++ ss, ?_, .cons (hl.mono hg') hall⟩
      · rw [hn', hn, List.foldl_cons]
      · rcases List.mem_cons.1 hj with rfl | hj
        · exact (Lower.accepts_operation _ l).1 ⟨_, hs⟩
        · exact hsup j hj
      · rw [hss]
        cases step <;> simp

/-- **What a layout and steps are to the program they are made from.** -/
structure Layout.Lays (l : Layout) (p : Program) (body : List Step) : Prop where
  valid : l.Valid
  value : l.value = defineAll p.instructions fun _ => .zero
  externals : l.externals.map Prod.snd = p.externalConstants
  samplers : l.samplers = (samplerSlots p.instructions).foldl noteNew []
  supported : ∀ i ∈ p.instructions, i.operation.Supported
  steps : l.LowersAll p.instructions body

theorem compile_eq_error {p : Program} {f : Fault} (h : compile p = .error f) :
    declareAll {} {} 0 p.instructions = .error f ∨ ∃ l, lowerAll l 0 #[] p.instructions = .error f := by
  cases hd : declareAll {} {} 0 p.instructions with
  | error g =>
    simp only [compile, lower, header, hd, bind, Except.bind, Except.error.injEq] at h
    exact .inl (by rw [h])
  | ok l =>
    simp only [compile, lower, header, hd, bind, Except.bind, pure, Except.pure] at h
    split at h
    · rename_i g hl
      cases h
      exact .inr ⟨_, hl⟩
    · cases h

theorem compile_eq_ok {p : Program} {k : Kernel} :
    compile p = .ok k ↔ ∃ steps l, lower p = .ok (steps, l) ∧ ofLayout l steps.toList = k := by
  simp only [compile, except_bind_eq_ok, pure, Except.pure, Except.ok.injEq, Prod.exists]

theorem lower_spec {p : Program} {steps : Array Step} {l : Layout} (h : lower p = .ok (steps, l)) :
    l.Lays p steps.toList := by
  simp only [lower, except_bind_eq_ok] at h
  obtain ⟨l₀, h₀, h₁⟩ := h
  obtain ⟨hv, hval, hx, hs⟩ := header_spec h₀
  obtain ⟨hg, hn, hsup, ss, hss, hall⟩ := lowerAll_spec _ _ _ _ _ _ h₁
  refine ⟨hg.valid hv, (hg.value hv).trans hval, ?_, ?_, hsup, ?_⟩
  · rw [hg.externals, hx]
  · rw [hn, hs, foldl_note]
  · rw [hss]
    exact hall

theorem compile_spec {p : Program} {k : Kernel} (h : compile p = .ok k) :
    ∃ l body, k = ofLayout l body ∧ l.Lays p body := by
  obtain ⟨steps, l, hl, rfl⟩ := compile_eq_ok.1 h
  exact ⟨l, steps.toList, rfl, lower_spec hl⟩

end Kernel
end PixelShader
