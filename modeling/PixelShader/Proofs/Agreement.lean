import Mathlib
import PixelShader.Proofs.Interpreter
import PixelShader.Proofs.Kernel.Running
/-!
# The two strategies agree

The interpreter checks each instruction as a whole before it looks at the next; the compiler takes all declarations
first and the operands after them.  So the two may object to different instructions of one program, but the interpreter
never to a later one (`Kernel.compile_error`), and a program that one of them takes the other takes
(`Kernel.ofProgram_of_compile`).  What they make of a program they both take differs in one thing only, when its
definitions are made, and a program that defines its constants before it reads them cannot tell.
-/
namespace PixelShader

/-! ## Which instruction is objected to -/

/-- The fault is an objection to instruction `n` of the list, whose first instruction has the index `index`. -/
def Fault.ObjectsTo (f : Fault) (index : Nat) (is : List Instruction) (n : Nat) : Prop :=
  ∃ i o, is[n]? = some i ∧ f = .unsupported (index + n) i o

theorem Fault.objectsTo_head (index : Nat) (i : Instruction) (is : List Instruction) (o : Objection) :
    (Fault.unsupported index i o).ObjectsTo index (i :: is) 0 := ⟨i, o, rfl, rfl⟩

theorem Fault.ObjectsTo.cons {f : Fault} {index n : Nat} {is : List Instruction} (h : f.ObjectsTo (index + 1) is n)
    (i : Instruction) : f.ObjectsTo index (i :: is) (n + 1) := by
  obtain ⟨j, o, hj, rfl⟩ := h
  refine ⟨j, o, hj, ?_⟩
  rw [Nat.add_assoc, Nat.add_comm 1]

/-- The check objects, and to no later instruction than the fault `g` does. -/
def ObjectsEarlier (state : Declarations × List Slot) (index : Nat) (is : List Instruction) (g : Fault) : Prop :=
  ∃ f n m, Interpreter.check state index is = .error f ∧ f.ObjectsTo index is n ∧ g.ObjectsTo index is m ∧ n ≤ m

theorem ObjectsEarlier.head {state : Declarations × List Slot} {index m : Nat} {i : Instruction} {is : List Instruction}
    {g : Fault} (hg : g.ObjectsTo index (i :: is) m) {o : Objection}
    (hc : Interpreter.checkInstruction state i.operation = .error o) : ObjectsEarlier state index (i :: is) g := by
  refine ⟨.unsupported index i o, 0, m, ?_, Fault.objectsTo_head index i is o, hg, Nat.zero_le m⟩
  rw [Interpreter.check, hc]

theorem ObjectsEarlier.tail {state state' : Declarations × List Slot} {index : Nat} {i : Instruction}
    {is : List Instruction} {g : Fault} (hc : Interpreter.checkInstruction state i.operation = .ok state')
    (h : ObjectsEarlier state' (index + 1) is g) : ObjectsEarlier state index (i :: is) g := by
  obtain ⟨f, n, m, hf, hn, hm, hle⟩ := h
  refine ⟨f, n + 1, m + 1, ?_, hn.cons i, hm.cons i, Nat.add_le_add_right hle 1⟩
  rw [Interpreter.check, hc]
  exact hf

theorem ObjectsEarlier.cons {ds : Declarations} {slots : List Slot} {index : Nat} {i : Instruction}
    {is : List Instruction} {g : Fault}
    (h : ∀ state', Interpreter.checkInstruction (ds, slots) i.operation = .ok state' →
      ObjectsEarlier state' (index + 1) is g)
    (hg : ∃ m, g.ObjectsTo (index + 1) is m) : ObjectsEarlier (ds, slots) index (i :: is) g := by
  cases hc : Interpreter.checkInstruction (ds, slots) i.operation with
  | error o =>
    obtain ⟨m, hm⟩ := hg
    exact .head (hm.cons i) hc
  | ok state' => exact .tail hc (h state' hc)

namespace Kernel

/-- **An objection to a declaration comes no earlier than that of the check.** -/
theorem declareAll_error : ∀ (is : List Instruction) (ds : Declarations) (slots : List Slot) (l : Layout) (index : Nat)
    (g : Fault), declareAll ds l index is = .error g → ObjectsEarlier (ds, slots) index is g
  | [], _, _, _, _, _, h => by cases h
  | i :: is, ds, slots, l, index, g, h => by
    rw [declareAll_cons] at h
    split at h
    · rename_i o ha
      cases h
      cases hc : Interpreter.checkInstruction (ds, slots) i.operation with
      | error o' => exact .head (Fault.objectsTo_head index i is o) hc
      | ok state' =>
        obtain ⟨⟨declared, ha'⟩, -, -⟩ := Interpreter.checkInstruction_eq_ok.1 hc
        rw [ha] at ha'
        cases ha'
    · rename_i declared ds' ha
      refine .cons (fun state' hc => ?_) ?_
      · obtain ⟨⟨declared', ha'⟩, -, -⟩ := Interpreter.checkInstruction_eq_ok.1 hc
        rw [ha] at ha'
        cases ha'
        exact declareAll_error is _ state'.2 _ (index + 1) g h
      · obtain ⟨-, -, m, -, -, hm, -⟩ := declareAll_error is ds' slots _ (index + 1) g h
        exact ⟨m, hm⟩

/-- **An objection to operands comes no earlier than that of the check.** -/
theorem lowerAll_error : ∀ (is : List Instruction) (ds : Declarations) (slots : List Slot) (l : Layout) (index : Nat)
    (done : Array Step) (g : Fault), lowerAll l index done is = .error g → ObjectsEarlier (ds, slots) index is g
  | [], _, _, _, _, _, _, h => by cases h
  | i :: is, ds, slots, l, index, done, g, h => by
    unfold lowerAll at h
    split at h
    · rename_i o hl
      cases h
      cases hc : Interpreter.checkInstruction (ds, slots) i.operation with
      | error o' => exact .head (Fault.objectsTo_head index i is o) hc
      | ok state' =>
        obtain ⟨-, hs, -⟩ := Interpreter.checkInstruction_eq_ok.1 hc
        obtain ⟨r, hr⟩ := (Lower.accepts_operation i.operation l).2 hs
        rw [hl] at hr
        cases hr
    · rename_i step l' hl
      refine .cons (fun state' hc => lowerAll_error is state'.1 state'.2 l' (index + 1) _ g h) ?_
      obtain ⟨-, -, m, -, -, hm, -⟩ := lowerAll_error is ds slots l' (index + 1) _ g h
      exact ⟨m, hm⟩

theorem check_of_declareAll : ∀ (is : List Instruction) (ds : Declarations) (slots : List Slot) (l l' : Layout)
    (index : Nat), declareAll ds l index is = .ok l' → (∀ i ∈ is, i.operation.Supported) →
      ∃ state, Interpreter.check (ds, slots) index is = .ok state
  | [], ds, slots, _, _, _, _, _ => ⟨(ds, slots), rfl⟩
  | i :: is, ds, slots, l, l', index, h, hs => by
    rw [declareAll_cons] at h
    split at h
    · cases h
    · rename_i declared ds' ha
      have hc : Interpreter.checkInstruction (ds, slots) i.operation = .ok (ds', i.operation.note slots) :=
        Interpreter.checkInstruction_eq_ok.2 ⟨⟨declared, ha⟩, hs i List.mem_cons_self, rfl⟩
      rw [Interpreter.check, hc]
      exact check_of_declareAll is ds' _ _ l' (index + 1) h fun j hj => hs j (List.mem_cons_of_mem i hj)

theorem compile_error {p : Program} {g : Fault} (h : compile p = .error g) :
    ObjectsEarlier ({}, []) 0 p.instructions g := by
  rcases compile_eq_error h with hd | ⟨l, hl⟩
  · exact declareAll_error _ _ _ _ _ _ hd
  · exact lowerAll_error _ _ _ _ _ _ _ hl

theorem ofProgram_of_compile {p : Program} {k : Kernel} (h : compile p = .ok k) :
    ∃ i, Interpreter.ofProgram p = .ok i := by
  obtain ⟨_, _, _, hl⟩ := compile_spec h
  simp only [compile, lower, header, except_bind_eq_ok] at h
  obtain ⟨-, ⟨-, ⟨l, hd, -⟩, -⟩, -⟩ := h
  obtain ⟨state, hc⟩ := check_of_declareAll _ _ [] _ _ _ hd hl.supported
  exact ⟨⟨p, state.2⟩, by rw [Interpreter.ofProgram, hc]; rfl⟩

end Kernel

/-- The fault is an objection to instruction `n` of the program, and its message has the text of that instruction. -/
def Fault.Blames (f : Fault) (p : Program) (n : Nat) : Prop :=
  ∃ i o, p.instructions[n]? = some i ∧ f = .unsupported n i o ∧
    f.message = "instruction " ++ toString n ++ " `" ++ i.text ++ "`: " ++ o.message

theorem Fault.ObjectsTo.blames {f : Fault} {p : Program} {n : Nat} (h : f.ObjectsTo 0 p.instructions n) :
    f.Blames p n := by
  obtain ⟨i, o, hi, rfl⟩ := h
  rw [Nat.zero_add]
  exact ⟨i, o, hi, rfl, rfl⟩

/-- **The strategies refuse the same programs and the same bindings.**  Of a program they both object to an instruction,
the compiler to no earlier one; of bindings they miss the same thing first. -/
theorem refusals_agree (p : Program) (b : Bindings) :
    match Interpreter.ofProgram p, Kernel.compile p with
    | .ok i, .ok k => (i.run b).outcome = b.verdict p ∧ (k.run b).outcome = b.verdict p
    | .error f, .error g => ∃ n m, f.Blames p n ∧ g.Blames p m ∧ n ≤ m
    | _, _ => False := by
  cases hk : Kernel.compile p with
  | error g =>
    obtain ⟨f, n, m, hf, hn, hm, hle⟩ := Kernel.compile_error hk
    have hi : Interpreter.ofProgram p = .error f := by rw [Interpreter.ofProgram, hf]; rfl
    rw [hi]
    exact ⟨n, m, hn.blames, hm.blames, hle⟩
  | ok k =>
    obtain ⟨i, hi⟩ := Kernel.ofProgram_of_compile hk
    have hri := Interpreter.run_spec hi b
    have hrk := Kernel.run_spec hk b
    rw [hi]
    simp only [Bindings.verdict]
    cases hs : b.supply p with
    | error fault =>
      rw [hs] at hri hrk
      simp only [hri, hrk, Rendering.refused, and_self]
    | ok image =>
      rw [hs] at hri hrk
      simp only [hri, hrk, Bindings.painted, and_self]

/-! ## What is painted -/

/-- **Both strategies paint the same.**  Where no constant is read before its definition and nothing is missing, they
paint every pixel, the same ones in the same order with the same colours, and leave the same bindings. -/
theorem run_interpreter_eq_run_kernel {p : Program} {i : Interpreter} {k : Kernel} {b : Bindings} {image : Image}
    (hi : Interpreter.ofProgram p = .ok i) (hk : Kernel.compile p = .ok k) (hd : p.DefinesBeforeUse)
    (ho : b.output = some image) (hs : ∀ n ∈ p.samplerNumbers, ∃ s, b.sampler n = .ok s) :
    (i.run b).paints = (k.run b).paints ∧ (i.run b).bindings = (k.run b).bindings ∧
      (i.run b).outcome = .ok () ∧ (k.run b).outcome = .ok () ∧
      (i.run b).paints.toList.map (fun q => (q.x, q.y)) =
        (Walk.pixels image.width image.height).map fun q => (q.x, q.y) := by
  have hri := Interpreter.run_spec hi b
  have hrk := Kernel.run_spec hk b
  simp only [Bindings.supply_eq_ok ho hs] at hri hrk
  have heq : i.run b = k.run b := by
    rw [hri, hrk]
    congr 1
    funext pixel
    rw [effectAll_eq_computeAll b.samplers.get p.instructions _ hd]
  rw [heq, hrk]
  refine ⟨rfl, rfl, rfl, rfl, ?_⟩
  simp only [Bindings.painted, List.map_map]
  rfl

/-- A program with a definition, both declarations, a sample, and a masked write that reads a constant it defines and,
negated and swizzled, one that it does not. -/
def tint : Program where
  instructions := [
    { operation := .define 0 ⟨.one, .two, .zero, .one⟩ },
    { operation := .declare .unknown { register := ⟨.texture, 0⟩, mask := .xy } },
    { operation := .declare .flat { register := ⟨.samplerState, 3⟩ } },
    { operation := .texld { register := ⟨.temp, 1⟩ } { register := ⟨.texture, 0⟩ } { register := ⟨.samplerState, 3⟩ } },
    { operation := .ternary .mad { register := ⟨.colorOut, 0⟩, mask := .xy } { register := ⟨.temp, 1⟩ }
        { register := ⟨.constant, 0⟩ }
        { register := ⟨.constant, 7⟩, swizzle := ⟨.w, .z, .y, .x⟩, modifier := .negate } }]

def tintBindings : Bindings where
  constants := ⟨[(7, .one)]⟩
  samplers := ⟨#[none, none, none, some ⟨(Image.filled 2 2 0xff804020).surface, .height⟩]⟩
  output := some (.blank 3 2)

theorem run_tint :
    ∃ i k, Interpreter.ofProgram tint = .ok i ∧ Kernel.compile tint = .ok k ∧ tint.DefinesBeforeUse ∧
      (∀ n ∈ tint.samplerNumbers, ∃ s, tintBindings.sampler n = .ok s) ∧
      (i.run tintBindings).paints = (k.run tintBindings).paints ∧
      (i.run tintBindings).bindings = (k.run tintBindings).bindings ∧ (i.run tintBindings).outcome = .ok () := by
  have hd : tint.DefinesBeforeUse := by decide
  have hs : ∀ n ∈ tint.samplerNumbers, ∃ s, tintBindings.sampler n = .ok s := by
    intro n hn
    obtain rfl := List.mem_singleton.1 hn
    exact ⟨_, rfl⟩
  obtain ⟨hp, hb, ho, -⟩ := run_interpreter_eq_run_kernel (p := tint) rfl rfl hd rfl hs
  exact ⟨_, _, rfl, rfl, hd, hs, hp, hb, ho⟩

end PixelShader
