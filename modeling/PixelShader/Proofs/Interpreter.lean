import Mathlib
import PixelShader.Proofs.Rendering
/-!
# What an interpreter computes

An interpreter is made only of a program whose instructions are all supported (`ofProgram_spec`), and it takes no pixel
in hand before the samplers of them are.  From there on no step is refused, whatever the registers hold
(`evaluate_spec`), so a run either paints every pixel, with the instructions carried out in their order, or does nothing
at all (`run_spec`).
-/
namespace PixelShader

/-! ## Samplers that are not sampled -/

theorem Operation.compute_congr_samplers {op : Operation} {find find' : Slot → Option Sampler}
    (h : ∀ s ∈ op.samplerSlot?, find s = find' s) (σ : Valuation) : op.compute find σ = op.compute find' σ := by
  have hr : op.result find σ = op.result find' σ := by
    cases op with
    | texld d coord sampler =>
      simp only [result, Source.sampled]
      cases hs : sampler.samplerSlot with
      | error e => rfl
      | ok slot => simp only [h slot (by simp [samplerSlot?, sampler?, hs, Except.toOption])]
    | _ => rfl
  simp only [compute, hr]

theorem mem_samplerSlots {is : List Instruction} {i : Instruction} {s : Slot} (hi : i ∈ is)
    (hs : i.operation.samplerSlot? = some s) : s ∈ samplerSlots is :=
  List.mem_filterMap.2 ⟨i, hi, hs⟩

theorem effectAll_congr_samplers {find find' : Slot → Option Sampler} : ∀ (is : List Instruction) (σ : Valuation),
    (∀ i ∈ is, ∀ s ∈ i.operation.samplerSlot?, find s = find' s) → effectAll find is σ = effectAll find' is σ
  | [], _, _ => by rw [effectAll_nil, effectAll_nil]
  | i :: is, σ, h => by
    rw [effectAll_cons, effectAll_cons, Operation.effect, Operation.effect,
      Operation.compute_congr_samplers (h i List.mem_cons_self)]
    exact effectAll_congr_samplers is _ fun j hj => h j (List.mem_cons_of_mem i hj)

theorem computeAll_congr_samplers {find find' : Slot → Option Sampler} : ∀ (is : List Instruction) (σ : Valuation),
    (∀ i ∈ is, ∀ s ∈ i.operation.samplerSlot?, find s = find' s) → computeAll find is σ = computeAll find' is σ
  | [], _, _ => rfl
  | i :: is, σ, h => by
    rw [computeAll_cons, computeAll_cons, Operation.compute_congr_samplers (h i List.mem_cons_self)]
    exact computeAll_congr_samplers is _ fun j hj => h j (List.mem_cons_of_mem i hj)

namespace Interpreter

/-! ## The check -/

theorem noteSampler_eq_ok {slots : List Slot} {op : Operation} (h : op.Supported) :
    noteSampler slots op = .ok (op.note slots) := by
  cases op with
  | texld d coord sampler =>
    obtain ⟨slot, hs⟩ := h.sampler sampler rfl
    have hn : (Operation.texld d coord sampler).note slots = noteNew slots slot := by
      simp [Operation.note, Operation.samplerSlot?, Operation.sampler?, hs, Except.toOption]
    rw [hn, noteSampler, hs]
    show Except.ok (if slot ∈ slots then slots else slots ++ [slot]) = _
    by_cases hm : slot ∈ slots
    · rw [if_pos hm, noteNew_of_mem hm]
    · rw [if_neg hm, noteNew_of_notMem hm]
  | _ => rfl

/-- **An instruction passes when its declaration is accepted and its operands are supported.** -/
theorem checkInstruction_eq_ok {state state' : Declarations × List Slot} {op : Operation} :
    checkInstruction state op = .ok state' ↔
      (∃ declared, state.1.add op = .ok (declared, state'.1)) ∧ op.Supported ∧ state'.2 = op.note state.2 := by
  simp only [checkInstruction, except_bind_eq_ok, pure, Except.pure, Except.ok.injEq]
  constructor
  · rintro ⟨⟨declared, ds⟩, ha, _, hc, slots, hn, rfl⟩
    have hs := op.checkOperands_eq_ok.1 hc
    rw [noteSampler_eq_ok hs] at hn
    cases hn
    exact ⟨⟨declared, ha⟩, hs, rfl⟩
  · rintro ⟨⟨declared, ha⟩, hs, hn⟩
    exact ⟨_, ha, (), op.checkOperands_eq_ok.2 hs, _, noteSampler_eq_ok hs, by rw [← hn]⟩

theorem check_spec : ∀ (is : List Instruction) (index : Nat) (state state' : Declarations × List Slot),
    check state index is = .ok state' →
      (∀ i ∈ is, i.operation.Supported ∧
        ∀ index ∈ i.operation.defined?, ∃ s, (Register.mk .constant index).slot = .ok s) ∧
      state'.2 = is.foldl (fun slots i => i.operation.note slots) state.2
  | [], _, _, _, h => by
    cases h
    exact ⟨fun i hi => (by cases hi), rfl⟩
  | i :: is, index, state, state', h => by
    unfold check at h
    split at h
    · cases h
    · rename_i state₁ hi
      obtain ⟨⟨declared, ha⟩, hs, hn⟩ := checkInstruction_eq_ok.1 hi
      obtain ⟨hall, hn'⟩ := check_spec is (index + 1) state₁ state' h
      refine ⟨fun j hj => ?_, ?_⟩
      · rcases List.mem_cons.1 hj with rfl | hj
        · exact ⟨hs, (Declarations.add_spec ha).1⟩
        · exact hall j hj
      · rw [hn', hn, List.foldl_cons]

theorem ofProgram_spec {p : Program} {i : Interpreter} (h : ofProgram p = .ok i) :
    i.program = p ∧ i.samplers = (samplerSlots p.instructions).foldl noteNew [] ∧
      ∀ j ∈ p.instructions, j.operation.Supported ∧
        ∀ index ∈ j.operation.defined?, ∃ s, (Register.mk .constant index).slot = .ok s := by
  simp only [ofProgram, except_bind_eq_ok, pure, Except.pure, Except.ok.injEq] at h
  obtain ⟨⟨ds, slots⟩, hc, rfl⟩ := h
  obtain ⟨hall, hn⟩ := check_spec _ _ _ _ hc
  exact ⟨rfl, hn.trans (foldl_note _ _), hall⟩

/-! ## Steps that are not refused -/

section
variable {p : Program} {i : Interpreter} {t : SamplerTable}

/-- **No step of a checked program is refused once its samplers are at hand**, whatever is in the registers. -/
theorem evaluate_spec (hi : ofProgram p = .ok i) (ht : ∀ s ∈ i.samplers, ∃ x, t.get s = some x) {j : Instruction}
    (hj : j ∈ p.instructions) (r : Registers) : ∃ w, j.operation.evaluate t r = .ok w := by
  obtain ⟨-, hn, hall⟩ := ofProgram_spec hi
  obtain ⟨hs, hd⟩ := hall j hj
  refine Operation.evaluate_total r hs hd fun s hsam => ?_
  obtain ⟨slot, hslot⟩ := hs.sampler s hsam
  have hm : slot ∈ samplerSlots p.instructions :=
    mem_samplerSlots hj (by rw [Operation.samplerSlot?, hsam, Option.bind_some, hslot]; rfl)
  obtain ⟨x, hx⟩ := ht slot (by rw [hn]; exact (mem_foldl_noteNew _ _).2 (.inr hm))
  exact ⟨x, SamplerTable.find_eq_ok.2 ⟨slot, hslot, hx⟩⟩

theorem shade_spec (hi : ofProgram p = .ok i) (ht : ∀ s ∈ i.samplers, ∃ x, t.get s = some x) (loaded : Registers)
    (pixel : Pixel) : ∃ r', (shade p t pixel).run loaded =
      .ok (effectAll t.get p.instructions (loaded.set .coordinate pixel.coordinate).get .color) r' := by
  obtain ⟨r', hr, hg⟩ := run_stepAll p.instructions 0 (loaded.set .coordinate pixel.coordinate)
    fun j hj r => evaluate_spec hi ht hj r
  refine ⟨r', ?_⟩
  rw [← hg]
  show EStateM.bind (stepAll t 0 p.instructions) _ (loaded.set .coordinate pixel.coordinate) = _
  rw [EStateM.bind, show stepAll t 0 p.instructions (loaded.set .coordinate pixel.coordinate) = .ok () r' from hr]
  rfl

theorem get_of_resolve {b : Bindings} {slots : List Slot} {t₀ : SamplerTable} (h : resolve b slots t₀ = .ok t)
    {s : Slot} (hs : s ∈ slots) : t.get s = b.samplers.get s ∧ ∃ x, t.get s = some x := by
  have hr := resolve_spec b slots t₀
  cases hf : slots.find? b.lacks with
  | some s' =>
    rw [hf, h] at hr
    cases hr
  | none =>
    rw [hf] at hr
    obtain ⟨t', ht', hin, -⟩ := hr
    rw [h] at ht'
    cases ht'
    have hl : ¬ b.lacks s = true := List.find?_eq_none.1 hf s hs
    refine ⟨hin s hs, ?_⟩
    rw [hin s hs]
    exact Option.ne_none_iff_exists'.1 fun he => hl (by simp [Bindings.lacks, he])

end

/-! ## Runs -/

theorem get_foldl_loadConstant (constants : ConstantTable) (c : Cell) : ∀ (ss : List Slot) (r : Registers),
    (ss.foldl (Registers.loadConstant constants) r).get c =
      if c.file = .constant ∧ c.slot ∈ ss then (constants.get? (UInt32.ofNat c.slot)).getD (r.get c) else r.get c
  | [], r => by simp
  | s :: ss, r => by
    have hload : (r.loadConstant constants s).get c =
        if c = ⟨.constant, s⟩ then (constants.get? (UInt32.ofNat s)).getD (r.get c) else r.get c := by
      unfold Registers.loadConstant
      cases constants.get? (UInt32.ofNat s) with
      | none => simp
      | some value =>
        rw [Registers.get_set, Function.update_apply]
        rfl
    rw [List.foldl_cons, get_foldl_loadConstant constants c ss, hload]
    obtain ⟨file, slot⟩ := c
    by_cases hf : file = .constant
    · subst hf
      by_cases hs : slot = s
      · subst hs
        cases constants.get? (UInt32.ofNat slot) <;> simp
      · simp [hs]
    · simp [hf]

/-- **Reset registers hold nothing of what they held before.** -/
theorem get_reset (r : Registers) (constants : ConstantTable) (pixel : Pixel) :
    ((r.reset constants).set .coordinate pixel.coordinate).get = startValues constants pixel.coordinate := by
  have hclear : ∀ c, r.clear.get c = .zero := by
    rintro ⟨file, slot⟩
    cases file <;> simp [Registers.clear, Registers.get]
  rw [Registers.get_set]
  funext c
  by_cases hc : c = .coordinate
  · rw [hc, Function.update_self, startValues_coordinate]
  · rw [Function.update_of_ne hc, Registers.reset, get_foldl_loadConstant, hclear]
    by_cases hf : c.file = .constant
    · rw [if_pos ⟨hf, List.mem_finRange _⟩, startValues, if_neg hc, if_pos hf, ConstantTable.getOrZero]
    · rw [if_neg fun h => hf h.1, startValues_of_ne constants _ hf hc]

/-- **A pixel has the colour that the program gives from a fresh start**, whatever is left in the registers. -/
theorem turn_spec {p : Program} {i : Interpreter} {t : SamplerTable} (hi : ofProgram p = .ok i)
    (ht : ∀ s ∈ i.samplers, ∃ x, t.get s = some x) (constants : ConstantTable) (left : Registers) (pixel : Pixel) :
    ∃ r', (turn p t constants pixel).run left =
      .ok (effectAll t.get p.instructions (startValues constants pixel.coordinate) .color) r' := by
  rw [← get_reset left constants pixel]
  exact shade_spec hi ht (left.reset constants) pixel

/-- **An interpreter paints every pixel with the colour that its instructions compute in their order, or is refused for
what is not bound.** -/
theorem run_spec {p : Program} {i : Interpreter} (hi : ofProgram p = .ok i) (b : Bindings) :
    match b.supply p with
    | .error fault => i.run b = .refused b (.binding fault)
    | .ok image => i.run b = b.painted image fun pixel =>
        effectAll b.samplers.get p.instructions (startValues b.constants pixel.coordinate) .color := by
  obtain ⟨hp, hn, hall⟩ := ofProgram_spec hi
  have hr := resolve_spec b i.samplers (.replicate registerSlots none)
  rw [b.supply_of_supported fun j hj => (hall j hj).1, ← hn]
  unfold run
  cases ho : b.output with
  | none => rfl
  | some image =>
    simp only
    cases hf : i.samplers.find? b.lacks with
    | some s =>
      rw [hf] at hr
      simp only [hr]
    | none =>
      rw [hf] at hr
      obtain ⟨t, ht, -⟩ := hr
      simp only [ht, hp]
      have hget : ∀ j ∈ p.instructions, ∀ s ∈ j.operation.samplerSlot?, t.get s = b.samplers.get s := fun j hj s hs =>
        (get_of_resolve ht (by rw [hn]; exact (mem_foldl_noteNew _ _).2 (.inr (mem_samplerSlots hj hs)))).1
      refine b.draw_eq_painted image (fun _ => True) (fun pixel left _ => ?_) trivial
      obtain ⟨r', hr⟩ := turn_spec hi (fun s hs => (get_of_resolve ht hs).2) b.constants left pixel
      exact ⟨r', by rw [hr, effectAll_congr_samplers _ _ hget], trivial⟩

end Interpreter
end PixelShader
