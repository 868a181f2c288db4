import Mathlib
import PixelShader.Proofs.Agreement
/-!
# What is written and ignored

Predicates, the hints of a destination and instructions that do nothing are part of a program's text.  Two programs that
differ in them only are *respelled*.  Every look at a program, by either strategy, is a pass over its instructions that
carries a state along and stops at the first objection (`pass`).  A pass whose step does not see the hints and keeps the
state at a `nop` comes to the same state on respelled programs, or to the same objection, though the instructions it
objects to need not have the same index (`Respelled.pass`).
-/
namespace PixelShader

/-! ## Respelled programs -/

def Destination.plain (d : Destination) : Destination := ⟨d.register, d.mask, false, false⟩

def Operation.plain : Operation → Operation
  | nop => nop
  | define index value => define index value
  | declare texture d => declare texture d.plain
  | texld d coord sampler => texld d.plain coord sampler
  | mov d a => mov d.plain a
  | unary op d a => unary op d.plain a
  | binary op d a b => binary op d.plain a b
  | ternary op d a b c => ternary op d.plain a b c

/-- The lists differ in predicates, in the hints of destinations, and in instructions that do nothing. -/
inductive Respelled : List Instruction → List Instruction → Prop
  | nil : Respelled [] []
  | cons {i j is js} : i.operation.plain = j.operation.plain → Respelled is js → Respelled (i :: is) (j :: js)
  | nopLeft {i is js} : i.operation = .nop → Respelled is js → Respelled (i :: is) js
  | nopRight {j is js} : j.operation = .nop → Respelled is js → Respelled is (j :: js)

/-! ## What does not see the hints -/

section
variable (op : Operation)

theorem Operation.sources_plain : op.plain.sources = op.sources := by cases op <;> rfl

theorem Operation.sampler?_plain : op.plain.sampler? = op.sampler? := by cases op <;> rfl

theorem Operation.defined?_plain : op.plain.defined? = op.defined? := by cases op <;> rfl

theorem Operation.dest?_plain : op.plain.dest? = op.dest?.map Destination.plain := by cases op <;> rfl

theorem Operation.effect_plain (find : Slot → Option Sampler) (σ : Valuation) :
    op.plain.effect find σ = op.effect find σ := by cases op <;> rfl

theorem Declarations.add_plain (ds : Declarations) : ds.add op.plain = ds.add op := by cases op <;> rfl

theorem Interpreter.checkInstruction_plain (state : Declarations × List Slot) :
    checkInstruction state op.plain = checkInstruction state op := by cases op <;> rfl

theorem Kernel.Lower.operation_plain : operation op.plain = operation op := by cases op <;> rfl

end

section
variable {is js : List Instruction}

theorem Respelled.exists_iff {P : Operation → Prop} (hplain : ∀ op, P op.plain ↔ P op) (hnop : ¬ P .nop)
    (h : Respelled is js) : (∃ i ∈ is, P i.operation) ↔ ∃ j ∈ js, P j.operation := by
  induction h with
  | nil => rfl
  | cons hij _ ih => rw [List.exists_mem_cons_iff, List.exists_mem_cons_iff, ih, ← hplain, hij, hplain]
  | nopLeft hi _ ih => simp only [List.exists_mem_cons_iff, hi, hnop, false_or, ih]
  | nopRight hj _ ih => simp only [List.exists_mem_cons_iff, hj, hnop, false_or, ih]

theorem Respelled.samplerNumbers (h : Respelled is js) :
    (Program.ofInstructions is).samplerNumbers = (Program.ofInstructions js).samplerNumbers := by
  simp only [Program.samplerNumbers, Program.ofInstructions]
  induction h with
  | nil => rfl
  | @cons i j _ _ hij _ ih =>
    have hs : i.operation.sampler? = j.operation.sampler? := by
      rw [← Operation.sampler?_plain, hij, Operation.sampler?_plain]
    simp only [List.filterMap_cons, hs, ih]
  | nopLeft hi _ ih => rw [List.filterMap_cons_none (by rw [hi]; rfl), ih]
  | nopRight hj _ ih => rw [List.filterMap_cons_none (by rw [hj]; rfl), ih]

theorem Respelled.effectAll (h : Respelled is js) (find : Slot → Option Sampler) (σ : Valuation) :
    effectAll find is σ = PixelShader.effectAll find js σ := by
  induction h generalizing σ with
  | nil => rw [effectAll_nil]
  | @cons i j _ _ hij _ ih =>
    rw [effectAll_cons, effectAll_cons, ih, ← i.operation.effect_plain, hij, Operation.effect_plain]
  | nopLeft hi _ ih =>
    rw [effectAll_cons, ih, hi]
    rfl
  | nopRight hj _ ih =>
    rw [effectAll_cons, ih, hj]
    rfl

theorem Respelled.externalConstants (h : Respelled is js) :
    (Program.ofInstructions is).externalConstants = (Program.ofInstructions js).externalConstants := by
  have hread : ∀ s, (Program.ofInstructions is).readsConstant s = (Program.ofInstructions js).readsConstant s := by
    intro s
    rw [Bool.eq_iff_iff, Program.readsConstant, Program.readsConstant, List.any_eq_true, List.any_eq_true]
    exact h.exists_iff (P := fun op => (op.sources.any (·.register == ⟨.constant, UInt32.ofNat s⟩)) = true)
      (fun op => by rw [op.sources_plain]) (by simp [Operation.sources])
  have hdefine : ∀ s, (Program.ofInstructions is).definesConstant s =
      (Program.ofInstructions js).definesConstant s := by
    intro s
    rw [Bool.eq_iff_iff, Kernel.definesConstant_iff, Kernel.definesConstant_iff]
    exact h.exists_iff (P := fun op => op.defined? = some (UInt32.ofNat s)) (fun op => by rw [op.defined?_plain])
      (by simp [Operation.defined?])
  unfold Program.externalConstants
  exact List.filter_congr fun s _ => by rw [hread, hdefine]

theorem Respelled.partialMasks (h : Respelled is js) :
    (Program.ofInstructions is).partialMasks = (Program.ofInstructions js).partialMasks := by
  have huses : ∀ m, (Program.ofInstructions is).usesMask m = (Program.ofInstructions js).usesMask m := by
    intro m
    rw [Bool.eq_iff_iff, Program.usesMask, Program.usesMask, List.any_eq_true, List.any_eq_true]
    refine h.exists_iff (P := fun op => (op.dest?.any (·.mask == m)) = true) (fun op => ?_) (by simp [Operation.dest?])
    rw [op.dest?_plain, Option.any_map]
    rfl
  unfold Program.partialMasks
  exact List.filter_congr fun m _ => by rw [huses]

end

/-! ## Corresponding instructions -/

/-- The number of instructions before a place that do something. -/
def rank (is : List Instruction) (n : Nat) : Nat := (is.take n).countP fun i => i.operation ≠ .nop

/-- The instructions at two places say the same, and as many that do something stand before the one as before the
other. -/
structure SamePlace (is js : List Instruction) (n m : Nat) (i j : Instruction) : Prop where
  left : is[n]? = some i
  right : js[m]? = some j
  does : i.operation ≠ .nop
  plain : i.operation.plain = j.operation.plain
  rank : rank is n = rank js m

theorem Operation.eq_nop_of_plain {op : Operation} (h : op.plain = .nop) : op = .nop := by
  cases op <;> first | rfl | cases h

section
variable {is js : List Instruction} {n m : Nat} {i j a b : Instruction}

theorem rank_cons (a : Instruction) (is : List Instruction) (n : Nat) :
    rank (a :: is) (n + 1) = rank is n + if a.operation = .nop then 0 else 1 := by
  rw [rank, List.take_succ_cons, List.countP_cons, rank]
  by_cases ha : a.operation = .nop <;> simp [ha]

theorem SamePlace.head (hd : a.operation ≠ .nop) (hp : a.operation.plain = b.operation.plain) :
    SamePlace (a :: is) (b :: js) 0 0 a b := ⟨rfl, rfl, hd, hp, rfl⟩

theorem SamePlace.cons (h : SamePlace is js n m i j) (hp : a.operation.plain = b.operation.plain) :
    SamePlace (a :: is) (b :: js) (n + 1) (m + 1) i j := by
  have hnop : a.operation = .nop ↔ b.operation = .nop := by
    constructor
    · intro ha
      exact Operation.eq_nop_of_plain (by rw [← hp, ha]; rfl)
    · intro hb
      exact Operation.eq_nop_of_plain (by rw [hp, hb]; rfl)
  refine ⟨h.left, h.right, h.does, h.plain, ?_⟩
  rw [rank_cons, rank_cons, h.rank]
  simp only [hnop]

theorem SamePlace.nopLeft (h : SamePlace is js n m i j) (ha : a.operation = .nop) :
    SamePlace (a :: is) js (n + 1) m i j :=
  ⟨h.left, h.right, h.does, h.plain, by rw [rank_cons, if_pos ha, Nat.add_zero, h.rank]⟩

theorem SamePlace.nopRight (h : SamePlace is js n m i j) (hb : b.operation = .nop) :
    SamePlace is (b :: js) n (m + 1) i j :=
  ⟨h.left, h.right, h.does, h.plain, by rw [rank_cons, if_pos hb, Nat.add_zero, h.rank]⟩

end

/-- Both succeed, with related results, or both object, for the same reason and to corresponding instructions.  The lists
start at the given indices. -/
def AgreeFrom (index index' : Nat) (is js : List Instruction) {α β : Type} (R : α → β → Prop) :
    Except Fault α → Except Fault β → Prop
  | .ok a, .ok b => R a b
  | .error f, .error g => ∃ n m i j o, SamePlace is js n m i j ∧ f = .unsupported (index + n) i o ∧
      g = .unsupported (index' + m) j o
  | _, _ => False

section
variable {index index' : Nat} {is js : List Instruction} {α β γ δ : Type} {R : α → β → Prop} {S : γ → δ → Prop}

theorem AgreeFrom.bind {x : Except Fault α} {y : Except Fault β} {f : α → Except Fault γ} {g : β → Except Fault δ}
    (h : AgreeFrom index index' is js R x y) (hf : ∀ a b, R a b → AgreeFrom index index' is js S (f a) (g b)) :
    AgreeFrom index index' is js S (x >>= f) (y >>= g) := by
  cases x with
  | error e =>
    cases y with
    | error e' => exact h
    | ok b => exact h.elim
  | ok a =>
    cases y with
    | error e' => exact h.elim
    | ok b => exact hf a b h

theorem AgreeFrom.imp {x : Except Fault α} {y : Except Fault β} {T : α → β → Prop}
    (h : AgreeFrom index index' is js R x y) (hT : ∀ a b, x = .ok a → y = .ok b → R a b → T a b) :
    AgreeFrom index index' is js T x y := by
  cases x with
  | error e =>
    cases y with
    | error e' => exact h
    | ok b => exact h.elim
  | ok a =>
    cases y with
    | error e' => exact h.elim
    | ok b => exact hT a b rfl rfl h

theorem AgreeFrom.shift (k k' : Nat) {x : Except Fault α} {y : Except Fault β} {is' js' : List Instruction}
    (h : AgreeFrom (index + k) (index' + k') is js R x y)
    (hplace : ∀ n m i j, SamePlace is js n m i j → SamePlace is' js' (n + k) (m + k') i j) :
    AgreeFrom index index' is' js' R x y := by
  cases x with
  | error e =>
    cases y with
    | error e' =>
      obtain ⟨n, m, i, j, o, hs, rfl, rfl⟩ := h
      refine ⟨n + k, m + k', i, j, o, hplace n m i j hs, ?_, ?_⟩
      · rw [Nat.add_assoc, Nat.add_comm k]
      · rw [Nat.add_assoc, Nat.add_comm k']
    | ok b => exact h.elim
  | ok a =>
    cases y with
    | error e' => exact h.elim
    | ok b => exact h

end

/-! ## Passes -/

/-- A look at instructions in order that stops at the first objection; `index` is that of the first one. -/
def pass {σ : Type} (step : σ → Operation → Except Objection σ) (state : σ) (index : Nat) :
    List Instruction → Except Fault σ
  | [] => .ok state
  | i :: rest =>
    match step state i.operation with
    | .error objection => .error (.unsupported index i objection)
    | .ok state => pass step state (index + 1) rest

/-- **A pass that does not see what is ignored agrees on respelled instructions.** -/
theorem Respelled.pass {σ : Type} {is js : List Instruction} (h : Respelled is js)
    (step : σ → Operation → Except Objection σ) (hplain : ∀ s op, step s op.plain = step s op)
    (hnop : ∀ s, step s .nop = .ok s) (s : σ) (index index' : Nat) :
    AgreeFrom index index' is js (· = ·) (PixelShader.pass step s index is) (PixelShader.pass step s index' js) := by
  induction h generalizing s index index' with
  | nil => exact rfl
  | @cons i j is js hij _ ih =>
    have hstep : step s i.operation = step s j.operation := by rw [← hplain, hij, hplain]
    rw [PixelShader.pass, PixelShader.pass, hstep]
    cases ho : step s j.operation with
    | error o =>
      have hd : i.operation ≠ .nop := by
        intro hn
        rw [← hstep, hn, hnop] at ho
        cases ho
      exact ⟨0, 0, i, j, o, .head hd hij, rfl, rfl⟩
    | ok s' => exact .shift 1 1 (ih s' (index + 1) (index' + 1)) fun n m i j hp => hp.cons hij
  | nopLeft hi _ ih =>
    rw [PixelShader.pass, hi, hnop]
    exact .shift 1 0 (ih s (index + 1) index') fun n m i j hp => hp.nopLeft hi
  | nopRight hj _ ih =>
    rw [PixelShader.pass, hj, hnop]
    exact .shift 0 1 (ih s index (index' + 1)) fun n m i j hp => hp.nopRight hj

theorem Interpreter.check_eq_pass : ∀ (is : List Instruction) (state : Declarations × List Slot) (index : Nat),
    check state index is = pass checkInstruction state index is
  | [], _, _ => rfl
  | i :: is, state, index => by
    rw [check, pass]
    cases checkInstruction state i.operation with
    | error o => rfl
    | ok state' => exact check_eq_pass is state' (index + 1)

namespace Kernel

def declareStep (state : Declarations × Layout) (op : Operation) : Except Objection (Declarations × Layout) :=
  (state.1.add op).map fun x => (x.2, state.2.declare x.1)

theorem declareAll_eq_pass : ∀ (is : List Instruction) (ds : Declarations) (l : Layout) (index : Nat),
    declareAll ds l index is = pass declareStep (ds, l) index is >>= fun state => .ok state.2
  | [], _, _, _ => rfl
  | i :: is, ds, l, index => by
    rw [declareAll_cons, pass, declareStep]
    cases ds.add i.operation with
    | error o => rfl
    | ok x => exact declareAll_eq_pass is x.2 (l.declare x.1) (index + 1)

def lowerStep (state : Array Step × Layout) (op : Operation) : Except Objection (Array Step × Layout) :=
  (Lower.operation op state.2).map fun x => (x.1.elim state.1 state.1.push, x.2)

theorem lowerAll_eq_pass : ∀ (is : List Instruction) (l : Layout) (index : Nat) (done : Array Step),
    lowerAll l index done is = pass lowerStep (done, l) index is
  | [], _, _, _ => rfl
  | i :: is, l, index, done => by
    rw [lowerAll, pass, lowerStep]
    cases Lower.operation i.operation l with
    | error o => rfl
    | ok x => exact lowerAll_eq_pass is x.2 (index + 1) (x.1.elim done done.push)

end Kernel

/-! ## Both strategies -/

section
variable {p q : Program}

theorem Respelled.ofProgram (h : Respelled p.instructions q.instructions) :
    AgreeFrom 0 0 p.instructions q.instructions (fun _ _ => True) (Interpreter.ofProgram p)
      (Interpreter.ofProgram q) := by
  have hc := h.pass Interpreter.checkInstruction (fun s op => Interpreter.checkInstruction_plain op s)
    (fun _ => rfl) ({}, []) 0 0
  rw [← Interpreter.check_eq_pass, ← Interpreter.check_eq_pass] at hc
  exact hc.bind fun _ _ _ => trivial

theorem Respelled.header (h : Respelled p.instructions q.instructions) :
    AgreeFrom 0 0 p.instructions q.instructions (· = ·) (Kernel.header p) (Kernel.header q) := by
  have hd := h.pass Kernel.declareStep
    (fun s op => by rw [Kernel.declareStep, Declarations.add_plain, Kernel.declareStep]) (fun _ => rfl) ({}, {}) 0 0
  have hall : AgreeFrom 0 0 p.instructions q.instructions (· = ·) (Kernel.declareAll {} {} 0 p.instructions)
      (Kernel.declareAll {} {} 0 q.instructions) := by
    rw [Kernel.declareAll_eq_pass, Kernel.declareAll_eq_pass]
    exact hd.bind fun s s' hs => congrArg Prod.snd hs
  have hx : p.externalConstants = q.externalConstants := h.externalConstants
  have hm : p.partialMasks = q.partialMasks := h.partialMasks
  rw [Kernel.header, Kernel.header, hx, hm]
  refine hall.bind fun l l' hl => ?_
  subst hl
  exact rfl

theorem Respelled.compile (h : Respelled p.instructions q.instructions) :
    AgreeFrom 0 0 p.instructions q.instructions (· = ·) (Kernel.compile p) (Kernel.compile q) := by
  have hl := h.pass Kernel.lowerStep
    (fun s op => by rw [Kernel.lowerStep, Kernel.Lower.operation_plain, Kernel.lowerStep]) (fun _ => rfl)
  have hlower : AgreeFrom 0 0 p.instructions q.instructions (· = ·) (Kernel.lower p) (Kernel.lower q) := by
    refine h.header.bind fun l l' hll => ?_
    subst hll
    rw [Kernel.lowerAll_eq_pass, Kernel.lowerAll_eq_pass]
    exact hl (#[], l) 0 0
  refine hlower.bind fun x x' hx => ?_
  subst hx
  exact rfl

theorem Respelled.supply (h : Respelled p.instructions q.instructions) (b : Bindings) : b.supply p = b.supply q := by
  have hn : p.samplerNumbers = q.samplerNumbers := h.samplerNumbers
  rw [Bindings.supply, Bindings.supply, hn]

theorem Respelled.run_interpreter (h : Respelled p.instructions q.instructions) {i j : Interpreter}
    (hi : Interpreter.ofProgram p = .ok i) (hj : Interpreter.ofProgram q = .ok j) (b : Bindings) : i.run b = j.run b := by
  have hr := Interpreter.run_spec hi b
  have hr' := Interpreter.run_spec hj b
  rw [← h.supply b] at hr'
  cases hs : b.supply p with
  | error fault =>
    rw [hs] at hr hr'
    exact hr.trans hr'.symm
  | ok image =>
    simp only [hs, h.effectAll] at hr hr'
    exact hr.trans hr'.symm

/-- **What is ignored makes no difference.**  Of two programs that differ in predicates, in the hints of destinations and
in instructions that do nothing, each strategy takes both or none.  What it does not take it objects to for the same
reason, in corresponding instructions.  What it takes it runs alike on all bindings: both runs end alike, paint the same
pixels in the same order with the same colours, and leave the same bindings. -/
theorem respelled_agree (h : Respelled p.instructions q.instructions) :
    AgreeFrom 0 0 p.instructions q.instructions (fun i j => ∀ b, i.run b = j.run b)
      (Interpreter.ofProgram p) (Interpreter.ofProgram q) ∧
    AgreeFrom 0 0 p.instructions q.instructions (fun k k' => ∀ b, k.run b = k'.run b)
      (Kernel.compile p) (Kernel.compile q) :=
  ⟨h.ofProgram.imp fun _ _ hi hj _ => h.run_interpreter hi hj,
    h.compile.imp fun _ _ _ _ he _ => congrArg (Kernel.run · _) he⟩

end

def tintRespelled : Program where
  instructions := [
    { operation := .nop },
    { operation := .define 0 ⟨.one, .two, .zero, .one⟩, predicate := some { register := ⟨.predicate, 0⟩ } },
    { operation := .declare .unknown { register := ⟨.texture, 0⟩, mask := .xy, centroid := true } },
    { operation := .declare .flat { register := ⟨.samplerState, 3⟩, partialPrecision := true } },
    { operation := .nop, predicate := some { register := ⟨.temp, 99⟩, modifier := .not } },
    { operation := .texld { register := ⟨.temp, 1⟩ } { register := ⟨.texture, 0⟩ } { register := ⟨.samplerState, 3⟩ } },
    { operation := .ternary .mad { register := ⟨.colorOut, 0⟩, mask := .xy, partialPrecision := true, centroid := true }
        { register := ⟨.temp, 1⟩ } { register := ⟨.constant, 0⟩ }
        { register := ⟨.constant, 7⟩, swizzle := ⟨.w, .z, .y, .x⟩, modifier := .negate } }]

def stray : Instruction := { operation := .mov { register := ⟨.colorOut, 0⟩ } { register := ⟨.texture, 1⟩ } }

def strayRespelled : Instruction where
  operation := .mov { register := ⟨.colorOut, 0⟩, partialPrecision := true } { register := ⟨.texture, 1⟩ }
  predicate := some { register := ⟨.predicate, 0⟩ }

/-- `tint` and its other spelling run alike, and the stray move is objected to where it stands. -/
theorem respelled_tint :
    (Respelled tint.instructions tintRespelled.instructions ∧
      ∃ i j, Interpreter.ofProgram tint = .ok i ∧ Interpreter.ofProgram tintRespelled = .ok j ∧
        i.run tintBindings = j.run tintBindings) ∧
    Respelled [stray] [⟨.nop, none⟩, strayRespelled] ∧
      ∃ n m i j o, SamePlace [stray] [⟨.nop, none⟩, strayRespelled] n m i j ∧
        Kernel.compile (.ofInstructions [stray]) = .error (.unsupported (0 + n) i o) ∧
        Kernel.compile (.ofInstructions [⟨.nop, none⟩, strayRespelled]) = .error (.unsupported (0 + m) j o) := by
  have ht : Respelled tint.instructions tintRespelled.instructions :=
    .nopRight rfl (.cons rfl (.cons rfl (.cons rfl (.nopRight rfl (.cons rfl (.cons rfl .nil))))))
  have hs : Respelled [stray] [⟨.nop, none⟩, strayRespelled] := .nopRight rfl (.cons rfl .nil)
  obtain ⟨i, hi⟩ : ∃ i, Interpreter.ofProgram tint = .ok i := ⟨_, rfl⟩
  obtain ⟨j, hj⟩ : ∃ j, Interpreter.ofProgram tintRespelled = .ok j := ⟨_, rfl⟩
  obtain ⟨f, hf⟩ : ∃ f, Kernel.compile (.ofInstructions [stray]) = .error f := ⟨_, rfl⟩
  obtain ⟨g, hg⟩ : ∃ g, Kernel.compile (.ofInstructions [⟨.nop, none⟩, strayRespelled]) = .error g := ⟨_, rfl⟩
  have hrun := (respelled_agree ht).1
  have hrefuse := (respelled_agree (p := .ofInstructions [stray]) (q := .ofInstructions [⟨.nop, none⟩, strayRespelled]) hs).2
  rw [hi, hj] at hrun
  rw [hf, hg] at hrefuse
  obtain ⟨n, m, a, b, o, hp, rfl, rfl⟩ := hrefuse
  exact ⟨⟨ht, i, j, hi, hj, hrun tintBindings⟩, hs, n, m, a, b, o, hp, hf, hg⟩

end PixelShader
