import Mathlib
import PixelShader.Backend
import PixelShader.Proofs.Agreement
/-!
# A rendering that fails changes nothing

An interpreter's step may be refused and is taken while earlier pixels are painted already.  But it is not refused
there: what a step asks for was asked for when the interpreter was made, or when its samplers were looked up.  So a
rendering, by either strategy, paints every pixel or is refused before the first (`render_cases`).
-/
namespace PixelShader

theorem Rendering.cases_of_supply {b : Bindings} {p : Program} {r : Rendering} {color : Pixel → Quad}
    (h : match b.supply p with
      | .error fault => r = .refused b (.binding fault)
      | .ok image => r = b.painted image color) :
    (∃ fault, r = .refused b fault) ∨ r.outcome = .ok () := by
  cases hs : b.supply p with
  | error fault =>
    rw [hs] at h
    exact .inl ⟨_, h⟩
  | ok image =>
    simp only [hs] at h
    exact .inr (by rw [h]; rfl)

theorem Bindings.render_cases (b : Bindings) (backend : Backend) (p : Program) :
    (∃ fault, b.render backend p = .refused b fault) ∨ (b.render backend p).outcome = .ok () := by
  cases backend with
  | interpreter =>
    cases hi : Interpreter.ofProgram p with
    | error fault => exact .inl ⟨fault, by simp only [render, hi]⟩
    | ok i =>
      simp only [render, hi]
      exact Rendering.cases_of_supply (Interpreter.run_spec hi b)
  | compiler =>
    cases hk : Kernel.compile p with
    | error fault => exact .inl ⟨fault, by simp only [render, hk]⟩
    | ok k =>
      simp only [render, hk]
      exact Rendering.cases_of_supply (Kernel.run_spec hk b)

/-- **A rendering that fails has painted nothing and leaves the bindings as they were.**  Once an interpreter is made
and its samplers are found, no instruction can fail on any registers, so that every pixel has a colour. -/
theorem render_error_unchanged (b : Bindings) (backend : Backend) (p : Program) :
    (∀ fault, (b.render backend p).outcome = .error fault →
      (b.render backend p).paints = #[] ∧ (b.render backend p).bindings = b) ∧
    ∀ i t, Interpreter.ofProgram p = .ok i →
      Interpreter.resolve b i.samplers (.replicate registerSlots none) = .ok t →
        (∀ j ∈ p.instructions, ∀ r, ∃ r', (j.step t).run r = .ok () r') ∧
        ∀ loaded pixel, ∃ color r', (Interpreter.shade i.program t pixel).run loaded = .ok color r' := by
  refine ⟨fun fault hf => ?_, fun i t hi ht => ?_⟩
  · rcases b.render_cases backend p with ⟨fault', hr⟩ | hr
    · rw [hr]
      exact ⟨rfl, rfl⟩
    · rw [hr] at hf
      cases hf
  · have hall : ∀ s ∈ i.samplers, ∃ x, t.get s = some x := fun s hs => (Interpreter.get_of_resolve ht hs).2
    refine ⟨fun j hj r => ?_, fun loaded pixel => ?_⟩
    · obtain ⟨w, hw⟩ := Interpreter.evaluate_spec hi hall hj r
      exact ⟨_, Instruction.run_step hw⟩
    · rw [(Interpreter.ofProgram_spec hi).1]
      exact ⟨_, Interpreter.shade_spec hi hall loaded pixel⟩

/-- `tint` without its sampler leaves the output blank; with all it needs none of its steps fails. -/
theorem render_tint_without_sampler :
    ((({ output := some (.blank 3 2) } : Bindings).render .interpreter tint).outcome =
        .error (.binding (.unboundSampler 3)) ∧
      (({ output := some (.blank 3 2) } : Bindings).render .interpreter tint).bindings.output =
        some (.blank 3 2)) ∧
      ∃ i t, Interpreter.ofProgram tint = .ok i ∧
        Interpreter.resolve tintBindings i.samplers (.replicate registerSlots none) = .ok t ∧
        ∀ loaded pixel, ∃ color r', (Interpreter.shade i.program t pixel).run loaded = .ok color r' := by
  refine ⟨⟨rfl, ?_⟩, _, _, rfl, rfl, ?_⟩
  · rw [((render_error_unchanged _ .interpreter tint).1 (.binding (.unboundSampler 3)) rfl).2]
  · exact ((render_error_unchanged tintBindings .interpreter tint).2 _ _ rfl rfl).2

end PixelShader
