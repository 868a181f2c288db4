import Mathlib
import PixelShader.Proofs.Supported
/-!
# The samplers that a program uses

Both strategies note a sampler at the first instruction that samples it and look the noted ones up when they run.  So
the first one that is found missing is the first one missing in the program text (`find?_foldl_noteNew`), whichever
strategy looks (`resolve_spec`, `mapM_samplerAt_spec`).
-/
namespace PixelShader

/-! ## Noting samplers -/

def Operation.samplerSlot? (op : Operation) : Option Slot := op.sampler?.bind fun s => s.samplerSlot.toOption

def samplerSlots (is : List Instruction) : List Slot := is.filterMap (·.operation.samplerSlot?)

def noteNew (slots : List Slot) (s : Slot) : List Slot := if slots.contains s then slots else slots ++ [s]

theorem noteNew_of_mem {slots : List Slot} {s : Slot} (h : s ∈ slots) : noteNew slots s = slots := by
  rw [noteNew, if_pos (List.contains_iff_mem.2 h)]

theorem noteNew_of_notMem {slots : List Slot} {s : Slot} (h : s ∉ slots) : noteNew slots s = slots ++ [s] := by
  rw [noteNew, if_neg (fun hc => h (List.contains_iff_mem.1 hc))]

def Operation.note (op : Operation) (slots : List Slot) : List Slot := op.samplerSlot?.elim slots (noteNew slots)

theorem mem_noteNew {slots : List Slot} {s a : Slot} : a ∈ noteNew slots s ↔ a ∈ slots ∨ a = s := by
  by_cases hs : s ∈ slots
  · rw [noteNew_of_mem hs]
    exact ⟨.inl, fun h => h.elim id (fun e => e ▸ hs)⟩
  · rw [noteNew_of_notMem hs]
    simp

theorem mem_foldl_noteNew {a : Slot} : ∀ (ss slots : List Slot), a ∈ ss.foldl noteNew slots ↔ a ∈ slots ∨ a ∈ ss
  | [], _ => by simp
  | s :: ss, slots => by
    rw [List.foldl_cons, mem_foldl_noteNew ss, mem_noteNew, List.mem_cons, or_assoc]

theorem find?_noteNew (q : Slot → Bool) (slots : List Slot) (s : Slot) :
    (noteNew slots s).find? q = (slots ++ [s]).find? q := by
  by_cases hs : s ∈ slots
  · rw [noteNew_of_mem hs, List.find?_append]
    cases hq : slots.find? q with
    | some a => rfl
    | none =>
      have hqs : q s = false := by simpa using List.find?_eq_none.1 hq s hs
      simp [hqs]
  · rw [noteNew_of_notMem hs]

/-- **What is found first among the noted slots is found first among all.** -/
theorem find?_foldl_noteNew (q : Slot → Bool) : ∀ (ss slots : List Slot),
    (ss.foldl noteNew slots).find? q = (slots ++ ss).find? q
  | [], slots => by simp
  | s :: ss, slots => by
    rw [List.foldl_cons, find?_foldl_noteNew q ss, List.find?_append, find?_noteNew, ← List.find?_append,
      List.append_assoc]
    rfl

theorem foldl_note : ∀ (is : List Instruction) (slots : List Slot),
    is.foldl (fun slots i => i.operation.note slots) slots = (samplerSlots is).foldl noteNew slots
  | [], _ => rfl
  | i :: is, slots => by
    rw [List.foldl_cons, foldl_note is]
    unfold samplerSlots Operation.note
    rw [List.filterMap_cons]
    cases i.operation.samplerSlot? <;> rfl

/-! ## Looking samplers up -/

def Bindings.lacks (b : Bindings) (s : Slot) : Bool := (b.samplers.get s).isNone

theorem Bindings.samplerAt_of_get {b : Bindings} {s : Slot} :
    b.samplerAt s = match b.samplers.get s with
      | some x => .ok x
      | none => .error (.unboundSampler (UInt32.ofNat s)) := rfl

theorem Interpreter.resolve_cons {b : Bindings} {s : Slot} {x : Sampler} (h : b.samplers.get s = some x)
    (slots : List Slot) (t : SamplerTable) :
    ∃ t' : SamplerTable, resolve b (s :: slots) t = resolve b slots t' ∧
      ∀ a, t'.get a = if a = s then some x else t.get a := by
  refine ⟨t.set s (some x), ?_, fun a => ?_⟩
  · show (b.samplerAt s >>= fun y => resolve b slots (t.set s (some y))) = _
    rw [Bindings.samplerAt_of_get, h]
    rfl
  · show (t.set s (some x))[a.val] = _
    rw [Vector.getElem_set]
    by_cases ha : a = s
    · subst ha
      simp
    · have hv : ¬ s.val = a.val := fun e => ha (Fin.ext e.symm)
      simp only [ha, hv, if_false]
      rfl

theorem Interpreter.resolve_cons_missing {b : Bindings} {s : Slot} (h : b.samplers.get s = none) (slots : List Slot)
    (t : SamplerTable) : resolve b (s :: slots) t = .error (.unboundSampler (UInt32.ofNat s)) := by
  show (b.samplerAt s >>= _) = _
  rw [Bindings.samplerAt_of_get, h]
  rfl

/-- The interpreter's table holds the bound samplers of the given slots, or the first of them is missing. -/
theorem Interpreter.resolve_spec (b : Bindings) : ∀ (slots : List Slot) (t : SamplerTable),
    match slots.find? b.lacks with
    | some s => resolve b slots t = .error (.unboundSampler (UInt32.ofNat s))
    | none => ∃ t', resolve b slots t = .ok t' ∧ (∀ s ∈ slots, t'.get s = b.samplers.get s) ∧
        ∀ s, s ∉ slots → t'.get s = t.get s
  | [], t => ⟨t, rfl, by simp, fun _ _ => rfl⟩
  | s :: slots, t => by
    rw [List.find?_cons]
    cases hs : b.samplers.get s with
    | none =>
      have hl : b.lacks s = true := by simp [Bindings.lacks, hs]
      simp only [hl]
      exact resolve_cons_missing hs slots t
    | some x =>
      have hl : b.lacks s = false := by simp [Bindings.lacks, hs]
      obtain ⟨t₁, hr, hget⟩ := resolve_cons hs slots t
      have ih := resolve_spec b slots t₁
      simp only [hl]
      rw [hr]
      cases hf : slots.find? b.lacks with
      | some s' => rw [hf] at ih; exact ih
      | none =>
        rw [hf] at ih
        obtain ⟨t', ht, hin, hout⟩ := ih
        refine ⟨t', ht, fun a ha => ?_, fun a ha => ?_⟩
        · by_cases hm : a ∈ slots
          · exact hin a hm
          · have has : a = s := (List.mem_cons.1 ha).resolve_right hm
            rw [hout a hm, hget, if_pos has, has, hs]
        · rw [List.mem_cons, not_or] at ha
          rw [hout a ha.2, hget, if_neg ha.1]

/-- The samplers of the given slots in order, or the first of them is missing. -/
theorem Bindings.mapM_samplerAt_spec (b : Bindings) : ∀ slots : List Slot,
    match slots.find? b.lacks with
    | some s => slots.mapM b.samplerAt = .error (.unboundSampler (UInt32.ofNat s))
    | none => ∃ xs, slots.mapM b.samplerAt = .ok xs ∧ ∀ n : Nat, xs[n]? = slots[n]?.bind b.samplers.get
  | [] => ⟨[], rfl, fun n => by simp⟩
  | s :: slots => by
    have ih := mapM_samplerAt_spec b slots
    rw [List.find?_cons, List.mapM_cons]
    cases hs : b.samplers.get s with
    | none =>
      have hl : b.lacks s = true := by simp [lacks, hs]
      simp only [hl, samplerAt_of_get, hs, bind, Except.bind]
    | some x =>
      have hl : b.lacks s = false := by simp [lacks, hs]
      simp only [hl, samplerAt_of_get, hs, bind, Except.bind]
      cases hf : slots.find? b.lacks with
      | some s' =>
        rw [hf] at ih
        simp only [ih]
      | none =>
        rw [hf] at ih
        obtain ⟨xs, hxs, hget⟩ := ih
        simp only [hxs]
        refine ⟨x :: xs, rfl, fun n => ?_⟩
        cases n with
        | zero => simp [hs]
        | succ n => simpa using hget n

end PixelShader
