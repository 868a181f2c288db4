import Mathlib
import PixelShader.Proofs.Kernel.Running
/-!
# Where definitions stand

A compiled definition holds in the whole program, so it does not matter where it stands.  That is not for free: each
definition takes a slot of the frame when it is met, so a program with its definitions moved has another frame and other
steps.  But whether a program is taken depends on its definitions only as a set (`accepts_iff`), and so does what the
constants start with (`defineAll_perm`), and what a kernel computes is made of nothing else (`Kernel.run_spec`).
-/
namespace PixelShader

def Instruction.isDefinition (i : Instruction) : Bool := i.operation.defined?.isSome

/-- The programs differ in nothing but the places of their definitions. -/
structure Program.MovedDefinitions (p q : Program) : Prop where
  others : p.instructions.filter (!·.isDefinition) = q.instructions.filter (!·.isDefinition)
  definitions : (p.instructions.filter (·.isDefinition)).Perm (q.instructions.filter (·.isDefinition))

theorem Operation.eq_define_of_isSome {op : Operation} (h : op.defined?.isSome = true) :
    ∃ index value, op = .define index value := by
  cases op with
  | define index value => exact ⟨index, value, rfl⟩
  | _ => cases h

/-! ## What the other instructions do -/

section
variable {find : Slot → Option Sampler}

theorem Operation.compute_of_definition {op : Operation} (h : op.defined?.isSome = true) (σ : Valuation) :
    op.compute find σ = σ := by
  obtain ⟨index, value, rfl⟩ := eq_define_of_isSome h
  rfl

theorem computeAll_others : ∀ (is : List Instruction) (σ : Valuation),
    computeAll find is σ = computeAll find (is.filter (!·.isDefinition)) σ
  | [], _ => rfl
  | i :: is, σ => by
    rw [computeAll_cons, computeAll_others is]
    by_cases hi : i.isDefinition = true
    · rw [List.filter_cons_of_neg (by simp [hi]), Operation.compute_of_definition hi]
    · rw [List.filter_cons_of_pos (by simpa using hi), computeAll_cons]

end

theorem samplerNumbers_others : ∀ is : List Instruction,
    (Program.ofInstructions is).samplerNumbers = (Program.ofInstructions (is.filter (!·.isDefinition))).samplerNumbers
  | [] => rfl
  | i :: is => by
    have ih := samplerNumbers_others is
    simp only [Program.samplerNumbers, Program.ofInstructions] at ih ⊢
    by_cases hi : i.isDefinition = true
    · obtain ⟨index, value, ho⟩ := Operation.eq_define_of_isSome hi
      rw [List.filter_cons_of_neg (by simp [hi]), ← ih, List.filterMap_cons_none]
      rw [ho]
      rfl
    · rw [List.filter_cons_of_pos (by simpa using hi), List.filterMap_cons, List.filterMap_cons, ih]

theorem Operation.supported_of_definition {op : Operation} (h : op.defined?.isSome = true) : op.Supported := by
  obtain ⟨index, value, rfl⟩ := eq_define_of_isSome h
  exact supported_define index value

/-! ## What definitions do -/

/-- No constant that has been defined is defined again, and all of them can be addressed. -/
structure DefinesOnce (before : List UInt32) (is : List Instruction) : Prop where
  fresh : ∀ i ∈ is, ∀ n ∈ i.operation.defined?, n.toNat < registerSlots ∧ n ∉ before
  once : is.Pairwise fun i j => ∀ n ∈ i.operation.defined?, j.operation.defined? ≠ some n

theorem definesOnce_cons {before : List UInt32} {i : Instruction} {is : List Instruction} {n : UInt32}
    (hi : i.operation.defined? = some n) : DefinesOnce before (i :: is) ↔
      (n.toNat < registerSlots ∧ n ∉ before) ∧ DefinesOnce (n :: before) is := by
  constructor
  · rintro ⟨hf, ho⟩
    rw [List.pairwise_cons] at ho
    refine ⟨hf i List.mem_cons_self n hi, fun j hj m hm => ?_, ho.2⟩
    obtain ⟨hlt, hb⟩ := hf j (List.mem_cons_of_mem i hj) m hm
    refine ⟨hlt, fun hmem => ?_⟩
    rcases List.mem_cons.1 hmem with rfl | hmem
    · exact ho.1 j hj m hi hm
    · exact hb hmem
  · rintro ⟨hn, hf, ho⟩
    refine ⟨fun j hj m hm => ?_, List.pairwise_cons.2 ⟨fun j hj m hm he => ?_, ho⟩⟩
    · rcases List.mem_cons.1 hj with rfl | hj
      · rw [hi] at hm
        cases hm
        exact hn
      · exact ⟨(hf j hj m hm).1, fun hb => (hf j hj m hm).2 (List.mem_cons_of_mem n hb)⟩
    · rw [hi] at hm
      cases hm
      exact (hf j hj n he).2 List.mem_cons_self

theorem definesOnce_cons_of_none {before : List UInt32} {i : Instruction} {is : List Instruction}
    (hi : i.operation.defined? = none) : DefinesOnce before (i :: is) ↔ DefinesOnce before is := by
  constructor
  · rintro ⟨hf, ho⟩
    exact ⟨fun j hj => hf j (List.mem_cons_of_mem i hj), ho.of_cons⟩
  · rintro ⟨hf, ho⟩
    refine ⟨List.forall_mem_cons.2 ⟨fun n hn => ?_, hf⟩, List.pairwise_cons.2 ⟨fun j _ n hn => ?_, ho⟩⟩
    all_goals
      rw [hi] at hn
      cases hn

theorem definesOnce_filter (before : List UInt32) : ∀ is : List Instruction,
    DefinesOnce before is ↔ DefinesOnce before (is.filter (·.isDefinition))
  | [] => Iff.rfl
  | i :: is => by
    cases hi : i.operation.defined? with
    | none =>
      rw [definesOnce_cons_of_none hi, List.filter_cons_of_neg (by simp [Instruction.isDefinition, hi])]
      exact definesOnce_filter before is
    | some n =>
      rw [definesOnce_cons hi, List.filter_cons_of_pos (by simp [Instruction.isDefinition, hi]), definesOnce_cons hi,
        definesOnce_filter (n :: before) is]

theorem DefinesOnce.perm {before : List UInt32} {is js : List Instruction} (h : DefinesOnce before is)
    (hp : is.Perm js) : DefinesOnce before js :=
  ⟨fun j hj => h.fresh j (hp.mem_iff.2 hj), hp.pairwise h.once fun hij n hn he => hij n he hn⟩

theorem Operation.predefine_comm {a b : Operation} (h : ∀ n ∈ a.defined?, b.defined? ≠ some n) (σ : Valuation) :
    b.predefine (a.predefine σ) = a.predefine (b.predefine σ) := by
  cases a with
  | define m v =>
    cases b with
    | define n w =>
      cases hm : (Register.mk .constant m).slot with
      | error e => simp only [predefine, hm]
      | ok s =>
        cases hn : (Register.mk .constant n).slot with
        | error e => simp only [predefine, hn]
        | ok t =>
          have hst : (⟨.constant, s⟩ : Cell) ≠ ⟨.constant, t⟩ := by
            intro he
            cases he
            exact h m rfl (congrArg some ((Register.slot_eq_ok.1 hn).trans (Register.slot_eq_ok.1 hm).symm))
          simp only [predefine, hm, hn]
          exact Function.update_comm hst _ _ _
    | _ => rfl
  | _ => rfl

theorem defineAll_filter : ∀ (is : List Instruction) (σ : Valuation),
    defineAll is σ = defineAll (is.filter (·.isDefinition)) σ
  | [], _ => rfl
  | i :: is, σ => by
    rw [defineAll_cons, defineAll_filter is]
    by_cases hi : i.isDefinition = true
    · rw [List.filter_cons_of_pos hi, defineAll_cons]
    · have hn : i.operation.defined? = none := Option.not_isSome_iff_eq_none.1 hi
      rw [List.filter_cons_of_neg hi, Operation.predefine_of_not_defined hn]

/-- **Definitions of different constants can be made in any order.** -/
theorem defineAll_perm {before : List UInt32} {is js : List Instruction} (h : DefinesOnce before is)
    (hp : is.Perm js) (σ : Valuation) : defineAll is σ = defineAll js σ := by
  apply hp.foldl_eq'
  intro i hi j hj τ
  by_cases hij : i = j
  · rw [hij]
  · have hs : Std.Symm fun i j : Instruction => ∀ n ∈ i.operation.defined?, j.operation.defined? ≠ some n :=
      ⟨fun _ _ hij n hn he => hij n he hn⟩
    exact Operation.predefine_comm (h.once.forall hi hj hij) τ

/-! ## Which programs are taken -/

def Declarations.Accepts (ds : Declarations) : List Instruction → Prop
  | [] => True
  | i :: is => ∃ declared ds', ds.add i.operation = .ok (declared, ds') ∧ ds'.Accepts is

theorem Declarations.add_constants (ds : Declarations) (cs : List UInt32) {op : Operation} (hop : op.defined? = none) :
    { ds with constants := cs }.add op = (ds.add op).map fun x => (x.1, { x.2 with constants := cs }) := by
  cases op with
  | define index value => cases hop
  | declare texture d =>
    simp only [add]
    split
    · simp only [declareSampler]
      cases d.register.slot with
      | error e => rfl
      | ok slot =>
        simp only [bind, Except.bind]
        split
        · rfl
        · split <;> rfl
    · simp only [declareCoordinate]
      split
      · rfl
      · split
        · rfl
        · split <;> rfl
    · rfl
  | _ => rfl

theorem Declarations.accepts_cons_of_none {ds : Declarations} {i : Instruction} {is : List Instruction}
    (hi : i.operation.defined? = none) : ds.Accepts (i :: is) ↔
      ∃ declared ds', ds.add i.operation = .ok (declared, ds') ∧ ds'.constants = ds.constants ∧ ds'.Accepts is := by
  refine ⟨fun ⟨declared, ds', ha, hs⟩ => ⟨declared, ds', ha, ?_, hs⟩,
    fun ⟨declared, ds', ha, _, hs⟩ => ⟨declared, ds', ha, hs⟩⟩
  have hc := ds.add_constants ds.constants hi
  rw [show { ds with constants := ds.constants } = ds from rfl, ha] at hc
  have hd := congrArg Declarations.constants (Prod.mk.inj (Except.ok.inj hc)).2
  exact hd

theorem Declarations.accepts_cons_of_some {ds : Declarations} {i : Instruction} {is : List Instruction} {n : UInt32}
    (hi : i.operation.defined? = some n) : ds.Accepts (i :: is) ↔
      (n.toNat < registerSlots ∧ n ∉ ds.constants) ∧ { ds with constants := n :: ds.constants }.Accepts is := by
  have hsome : i.operation.defined?.isSome = true := by rw [hi]; rfl
  obtain ⟨index, value, ho⟩ := Operation.eq_define_of_isSome hsome
  obtain rfl : index = n := by
    rw [ho] at hi
    cases hi
    rfl
  by_cases hlt : index.toNat < registerSlots
  · have hs : (Register.mk .constant index).slot = .ok ⟨index.toNat, hlt⟩ := dif_pos hlt
    by_cases hm : index ∈ ds.constants
    · have ha : ds.add i.operation = .error (.redefined index) := by
        simp only [ho, add, define, hs, bind, Except.bind, if_pos hm]
        rfl
      simp [Accepts, ha, hm]
    · have ha : ds.add i.operation = .ok (.constant ⟨index.toNat, hlt⟩ value,
          { ds with constants := index :: ds.constants }) := by
        simp only [ho, add, define, hs, bind, Except.bind, if_neg hm]
        rfl
      simp [Accepts, ha, hm, hlt]
  · have hs : (Register.mk .constant index).slot = .error (.outOfRange ⟨.constant, index⟩) := dif_neg hlt
    have ha : ds.add i.operation = .error (.outOfRange ⟨.constant, index⟩) := by
      simp only [ho, add, define, hs, bind, Except.bind]
    simp [Accepts, ha, hlt]

theorem Declarations.accepts_constants (cs : List UInt32) : ∀ (is : List Instruction) (ds : Declarations),
    (∀ i ∈ is, i.operation.defined? = none) → ({ ds with constants := cs }.Accepts is ↔ ds.Accepts is)
  | [], _, _ => Iff.rfl
  | i :: is, ds, h => by
    have ih := fun ds => accepts_constants cs is ds fun j hj => h j (List.mem_cons_of_mem i hj)
    simp only [Accepts, ds.add_constants cs (h i List.mem_cons_self)]
    cases ds.add i.operation with
    | error e => simp [Except.map]
    | ok x =>
      obtain ⟨declared, ds'⟩ := x
      simp [Except.map, ih]

/-- **Declarations are accepted when no constant is defined twice and the others are accepted by themselves.** -/
theorem Declarations.accepts_iff : ∀ (is : List Instruction) (ds : Declarations),
    ds.Accepts is ↔ DefinesOnce ds.constants is ∧ ds.Accepts (is.filter (!·.isDefinition))
  | [], ds => ⟨fun h => ⟨⟨fun i hi => (by cases hi), .nil⟩, h⟩, And.right⟩
  | i :: is, ds => by
    cases hi : i.operation.defined? with
    | none =>
      rw [definesOnce_cons_of_none hi, List.filter_cons_of_pos (by simp [Instruction.isDefinition, hi]),
        accepts_cons_of_none hi, accepts_cons_of_none hi]
      constructor
      · rintro ⟨declared, ds', ha, hc, hs⟩
        obtain ⟨hd, ho⟩ := (accepts_iff is ds').1 hs
        rw [hc] at hd
        exact ⟨hd, declared, ds', ha, hc, ho⟩
      · rintro ⟨hd, declared, ds', ha, hc, ho⟩
        rw [← hc] at hd
        exact ⟨declared, ds', ha, hc, (accepts_iff is ds').2 ⟨hd, ho⟩⟩
    | some n =>
      have hothers : ∀ j ∈ is.filter (!·.isDefinition), j.operation.defined? = none := fun j hj => by
        simpa [Instruction.isDefinition] using (List.mem_filter.1 hj).2
      rw [definesOnce_cons hi, List.filter_cons_of_neg (by simp [Instruction.isDefinition, hi]),
        accepts_cons_of_some hi, accepts_iff is, accepts_constants _ _ ds hothers, ← and_assoc]

namespace Kernel

theorem declareAll_accepts : ∀ (is : List Instruction) (ds : Declarations) (l : Layout) (index : Nat),
    (∃ l', declareAll ds l index is = .ok l') ↔ ds.Accepts is
  | [], _, l, _ => iff_of_true ⟨l, rfl⟩ trivial
  | i :: is, ds, l, index => by
    rw [declareAll_cons, Declarations.Accepts]
    cases ds.add i.operation with
    | error o => simp
    | ok x =>
      obtain ⟨declared, ds'⟩ := x
      simpa using declareAll_accepts is ds' (l.declare declared) (index + 1)

theorem lowerAll_accepts : ∀ (is : List Instruction) (l : Layout) (index : Nat) (done : Array Step),
    (∃ r, lowerAll l index done is = .ok r) ↔ ∀ i ∈ is, i.operation.Supported
  | [], l, _, done => iff_of_true ⟨_, rfl⟩ fun i hi => (by cases hi)
  | i :: is, l, index, done => by
    have hi := Lower.accepts_operation i.operation l
    rw [List.forall_mem_cons, ← hi]
    unfold lowerAll
    cases ho : Lower.operation i.operation l with
    | error o => simp
    | ok x =>
      obtain ⟨step, l'⟩ := x
      simpa using lowerAll_accepts is l' (index + 1) (step.elim done done.push)

/-- **The programs that can be compiled.** -/
theorem compile_accepts (p : Program) : (∃ k, compile p = .ok k) ↔
    ({} : Declarations).Accepts p.instructions ∧ ∀ i ∈ p.instructions, i.operation.Supported := by
  rw [← declareAll_accepts p.instructions {} {} 0]
  cases hd : declareAll {} {} 0 p.instructions with
  | error g => simp [compile, lower, header, hd, bind, Except.bind]
  | ok l =>
    have hh : ∃ l', header p = .ok l' := ⟨_, by simp only [header, hd]; rfl⟩
    obtain ⟨l', hh⟩ := hh
    rw [← lowerAll_accepts p.instructions l' 0 #[]]
    simp only [compile, lower, hh, bind, Except.bind]
    cases lowerAll l' 0 #[] p.instructions <;> simp [pure, Except.pure]

end Kernel

/-! ## Programs with their definitions moved -/

section
variable {p q : Program}

theorem Program.MovedDefinitions.symm (h : p.MovedDefinitions q) : q.MovedDefinitions p :=
  ⟨h.others.symm, h.definitions.symm⟩

theorem Program.MovedDefinitions.definesOnce (h : p.MovedDefinitions q) {before : List UInt32}
    (hp : DefinesOnce before p.instructions) : DefinesOnce before q.instructions :=
  (definesOnce_filter before _).2 (((definesOnce_filter before _).1 hp).perm h.definitions)

theorem Program.MovedDefinitions.supported (h : p.MovedDefinitions q)
    (hp : ∀ i ∈ p.instructions, i.operation.Supported) : ∀ i ∈ q.instructions, i.operation.Supported := by
  intro i hi
  by_cases hd : i.isDefinition = true
  · exact Operation.supported_of_definition hd
  · have hm : i ∈ q.instructions.filter (!·.isDefinition) := List.mem_filter.2 ⟨hi, by simpa using hd⟩
    rw [← h.others] at hm
    exact hp i (List.mem_filter.1 hm).1

theorem Program.MovedDefinitions.compile_ok (h : p.MovedDefinitions q) (hp : ∃ k, Kernel.compile p = .ok k) :
    ∃ k, Kernel.compile q = .ok k := by
  rw [Kernel.compile_accepts, Declarations.accepts_iff] at hp ⊢
  obtain ⟨⟨hd, ho⟩, hs⟩ := hp
  exact ⟨⟨h.definesOnce hd, h.others ▸ ho⟩, h.supported hs⟩

/-- **Definitions may stand anywhere in a compiled program.**  Of two programs that differ only in where their
definitions stand, both are compiled or none, and whatever the bindings are, the kernels end alike, paint the same pixels
in the same order with the same colours, and leave the same bindings. -/
theorem run_compile_movedDefinitions (h : p.MovedDefinitions q) :
    ((∃ k, Kernel.compile p = .ok k) ↔ ∃ k, Kernel.compile q = .ok k) ∧
      ∀ k k', Kernel.compile p = .ok k → Kernel.compile q = .ok k' → ∀ b : Bindings,
        (k.run b).outcome = (k'.run b).outcome ∧ (k.run b).paints = (k'.run b).paints ∧
          (k.run b).bindings = (k'.run b).bindings := by
  refine ⟨⟨h.compile_ok, h.symm.compile_ok⟩, fun k k' hk hk' b => ?_⟩
  have hd : DefinesOnce [] p.instructions :=
    ((Declarations.accepts_iff _ _).1 ((Kernel.compile_accepts p).1 ⟨k, hk⟩).1).1
  have hdefine : ∀ σ, defineAll p.instructions σ = defineAll q.instructions σ := fun σ => by
    rw [defineAll_filter p.instructions, defineAll_filter q.instructions]
    exact defineAll_perm ((definesOnce_filter _ _).1 hd) h.definitions σ
  have hcompute : ∀ find σ, computeAll find p.instructions σ = computeAll find q.instructions σ := fun find σ => by
    rw [computeAll_others p.instructions, computeAll_others q.instructions, h.others]
  have hsupply : b.supply p = b.supply q := by
    have hn : p.samplerNumbers = q.samplerNumbers :=
      (samplerNumbers_others p.instructions).trans (h.others ▸ (samplerNumbers_others q.instructions).symm)
    rw [Bindings.supply, Bindings.supply, hn]
  have hrun : k.run b = k'.run b := by
    have hr := Kernel.run_spec hk b
    have hr' := Kernel.run_spec hk' b
    rw [← hsupply] at hr'
    cases hs : b.supply p with
    | error fault =>
      rw [hs] at hr hr'
      exact hr.trans hr'.symm
    | ok image =>
      simp only [hs, hdefine, hcompute] at hr hr'
      exact hr.trans hr'.symm
  rw [hrun]
  exact ⟨rfl, rfl, rfl⟩

end

def blend : Program where
  instructions := [
    { operation := .define 1 (.splat .one) },
    { operation := .declare .unknown { register := ⟨.texture, 0⟩, mask := .xy } },
    { operation := .define 4 (.splat .two) },
    { operation := .ternary .mad { register := ⟨.colorOut, 0⟩ } { register := ⟨.texture, 0⟩ }
        { register := ⟨.constant, 1⟩ } { register := ⟨.constant, 4⟩ } }]

def blendMoved : Program where
  instructions := [
    { operation := .declare .unknown { register := ⟨.texture, 0⟩, mask := .xy } },
    { operation := .ternary .mad { register := ⟨.colorOut, 0⟩ } { register := ⟨.texture, 0⟩ }
        { register := ⟨.constant, 1⟩ } { register := ⟨.constant, 4⟩ } },
    { operation := .define 4 (.splat .two) },
    { operation := .define 1 (.splat .one) }]

/-- The kernels of `blend` and `blendMoved` have the coordinate in different slots and paint the same. -/
theorem run_blend_moved :
    blend.MovedDefinitions blendMoved ∧ ∃ k k', Kernel.compile blend = .ok k ∧ Kernel.compile blendMoved = .ok k' ∧
      k.coordinate = some 1 ∧ k'.coordinate = some 0 ∧
      (k.run { output := some (.blank 2 3) }).paints =
        (k'.run { output := some (.blank 2 3) }).paints := by
  have hm : blend.MovedDefinitions blendMoved := ⟨by decide, by decide⟩
  have hr := (run_compile_movedDefinitions hm).2 _ _ rfl rfl { output := some (.blank 2 3) }
  exact ⟨hm, _, _, rfl, rfl, rfl, rfl, hr.2.1⟩

end PixelShader
