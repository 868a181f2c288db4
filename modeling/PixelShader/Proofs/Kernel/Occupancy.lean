import Mathlib
import PixelShader.Proofs.Kernel.Compile
import PixelShader.Proofs.RegisterLimit
/-!
# What a frame has slots for

A layout grows by one slot when something is mentioned for the first time, and by none when it is mentioned again.  So
the size of a frame is a count of what its program mentions (`Layout.Houses`), whichever pass it is mentioned in and
however often.  `houses_lower` lists the mentions of a program in order, and `size_entry_of_lower` counts them by kind.
-/
namespace PixelShader

/-! ## What a program mentions -/

def Operation.declared? : Operation → Option Register
  | .declare _ d => some d.register
  | _ => none

namespace Program

def defined (p : Program) : List UInt32 := p.instructions.filterMap (·.operation.defined?)

def declared (p : Program) : List Register := p.instructions.filterMap (·.operation.declared?)

def read (p : Program) : List Register := p.instructions.flatMap fun i => i.operation.sources.map (·.register)

def written (p : Program) : List Register := p.instructions.filterMap fun i => i.operation.dest?.map (·.register)

def writtenPartly (p : Program) : List WriteMask :=
  (p.instructions.filterMap fun i => i.operation.dest?.map (·.mask)).filter (!·.isFull)

section
variable {p : Program} {r : Register}

theorem mem_defined {n : UInt32} : n ∈ p.defined ↔ ∃ i ∈ p.instructions, i.operation.defined? = some n := by
  simp [defined]

theorem mem_declared : r ∈ p.declared ↔ ∃ i ∈ p.instructions, i.operation.declared? = some r := by
  simp [declared]

theorem mem_read : r ∈ p.read ↔ ∃ i ∈ p.instructions, ∃ a ∈ i.operation.sources, a.register = r := by
  simp [read]

theorem mem_written : r ∈ p.written ↔ ∃ i ∈ p.instructions, ∃ d, i.operation.dest? = some d ∧ d.register = r := by
  simp [written]

theorem mem_writtenPartly {m : WriteMask} : m ∈ p.writtenPartly ↔
    (∃ i ∈ p.instructions, ∃ d, i.operation.dest? = some d ∧ d.mask = m) ∧ m.isFull = false := by
  simp [writtenPartly]

theorem mem_writtenPartly_of_mem_partialMasks {m : WriteMask} (h : m ∈ p.partialMasks) : m ∈ p.writtenPartly := by
  obtain ⟨hfull, huses⟩ := Bool.and_eq_true_iff.1 (List.mem_filter.1 h).2
  refine mem_writtenPartly.2 ⟨?_, by simpa using hfull⟩
  simpa [usesMask, Option.any_eq_true] using huses

end
end Program

def numbersOf (kind : RegisterKind) (rs : List Register) : List UInt32 :=
  (rs.filter (·.kind = kind)).map (·.number)

theorem mem_numbersOf {kind : RegisterKind} {rs : List Register} {n : UInt32} :
    n ∈ numbersOf kind rs ↔ ⟨kind, n⟩ ∈ rs := by
  simp only [numbersOf, List.mem_map, List.mem_filter, decide_eq_true_eq]
  constructor
  · rintro ⟨⟨k, m⟩, ⟨hm, rfl⟩, rfl⟩
    exact hm
  · intro hm
    exact ⟨⟨kind, n⟩, ⟨hm, rfl⟩, rfl⟩

namespace Kernel

/-- A tenant by its name in the program. -/
inductive Mention where
  | register (r : Register)
  | mask (m : WriteMask)
  deriving DecidableEq

def Tenant.mention : Tenant → Mention
  | cell c => .register c.register
  | mask m => .mask m

theorem Tenant.mention_injective : Function.Injective mention := by
  rintro (c | m) (c' | m') h
  · rw [Cell.register_injective (Mention.register.inj h)]
  · cases h
  · cases h
  · rw [Mention.mask.inj h]

def declaredMentions : Operation → List Mention
  | .define index _ => [.register ⟨.constant, index⟩]
  | .declare _ d => if d.register.kind = .texture then [.register d.register] else []
  | _ => []

/-- What a destination mentions, which is a mask too if it is a partial one. -/
def destinationMentions (d : Destination) : List Mention :=
  .register d.register :: if d.mask.isFull then [] else [.mask d.mask]

def operationMentions (op : Operation) : List Mention :=
  op.dest?.toList.flatMap destinationMentions ++ op.operands.map fun a => .register a.register

def mentions (p : Program) : List Mention :=
  p.instructions.flatMap (fun i => declaredMentions i.operation) ++
    p.externalConstants.map (fun s => .register ⟨.constant, UInt32.ofNat s⟩) ++ p.partialMasks.map .mask ++
      p.instructions.flatMap fun i => operationMentions i.operation

/-! ## One mention -/

/-- The layout has slots for what is mentioned, one for each and none besides. -/
structure Layout.Houses (l : Layout) (ms : List Mention) : Prop where
  slot : ∀ k, (∃ n, l.slot? k = some n) ↔ k.mention ∈ ms
  size : l.entry.size = ms.toFinset.card
  readable : ∀ r, .register r ∈ ms → ∃ c, r.readCell = .ok c

namespace Layout
variable {l l' : Layout} {ms : List Mention} {k : Tenant}

theorem houses_empty : ({} : Layout).Houses [] where
  slot k := by cases k <;> simp [slot?, cell?, mask?]
  size := rfl
  readable r hr := by cases hr

theorem Houses.again (h : l.Houses ms) (hk : ∃ n, l.slot? k = some n) : l.Houses (ms ++ [k.mention]) := by
  have hm : k.mention ∈ ms := (h.slot k).1 hk
  have hmem : ∀ m, m ∈ ms ++ [k.mention] ↔ m ∈ ms := fun m => by
    rw [List.mem_append, List.mem_singleton]
    exact ⟨fun hd => hd.elim id fun e => e ▸ hm, .inl⟩
  refine ⟨fun j => ?_, ?_, fun r hr => h.readable r ((hmem _).1 hr)⟩
  · rw [hmem, h.slot]
  · rw [h.size]
    congr 1
    ext m
    rw [List.mem_toFinset, List.mem_toFinset, hmem]

theorem Houses.admits (h : l.Houses ms) (a : l.Admits l' k)
    (hr : ∀ r, k.mention = .register r → ∃ c, r.readCell = .ok c) : l'.Houses (ms ++ [k.mention]) := by
  have hm : k.mention ∉ ms := fun hm => by
    obtain ⟨n, hn⟩ := (h.slot k).2 hm
    rw [a.fresh] at hn
    cases hn
  refine ⟨fun j => ?_, ?_, fun r hmem => ?_⟩
  · rw [a.slot, List.mem_append, List.mem_singleton, Tenant.mention_injective.eq_iff, ← h.slot]
    by_cases e : j = k <;> simp [e]
  · have hc : (ms ++ [k.mention]).toFinset = insert k.mention ms.toFinset := by
      ext m
      simp [or_comm]
    rw [a.entry, Array.size_push, h.size, hc, Finset.card_insert_of_notMem (by simpa using hm)]
  · rcases List.mem_append.1 hmem with hmem | hmem
    · exact h.readable r hmem
    · exact hr r (List.mem_singleton.1 hmem).symm

theorem Houses.register (h : l.Houses ms) {r : Register} {c : Cell} (hr : r.readCell = .ok c) :
    (l.cell c).2.Houses (ms ++ [.register r]) := by
  obtain rfl := Register.register_of_readCell hr
  rcases cell_cases c l with ⟨n, hn, he⟩ | ⟨-, a⟩
  · rw [he]
    exact h.again (k := .cell c) ⟨n, hn⟩
  · refine h.admits a fun r e => ?_
    cases e
    exact ⟨c, hr⟩

theorem Houses.mask (h : l.Houses ms) (m : WriteMask) : (l.mask m).2.Houses (ms ++ [.mask m]) := by
  rcases mask_cases m l with ⟨n, hn, he⟩ | ⟨-, a⟩
  · rw [he]
    exact h.again (k := .mask m) ⟨n, hn⟩
  · exact h.admits a fun r e => by cases e

theorem Houses.sampler (h : l.Houses ms) (s : Slot) : (l.sampler s).2.Houses ms := by
  unfold Layout.sampler
  split
  · exact h
  · exact ⟨h.slot, h.size, h.readable⟩

theorem readCell_constant_slot (s : Slot) :
    (Register.mk .constant (UInt32.ofNat s)).readCell = .ok ⟨.constant, s⟩ := by
  have hs : (Register.mk .constant (UInt32.ofNat s)).slot = .ok s := Register.slot_eq_ok.2 rfl
  simp only [Register.readCell, hs, bind, Except.bind, pure, Except.pure]

theorem Houses.define (h : l.Houses ms) (s : Slot) (v : Quad) :
    (l.define s v).Houses (ms ++ [.register ⟨.constant, UInt32.ofNat s⟩]) := by
  have h' := h.register (readCell_constant_slot s)
  exact ⟨h'.slot, Array.size_setIfInBounds.trans h'.size, h'.readable⟩

theorem Houses.takeExternal (h : l.Houses ms) (s : Slot) :
    (l.takeExternal s).Houses (ms ++ [.register ⟨.constant, UInt32.ofNat s⟩]) := by
  have h' := h.register (readCell_constant_slot s)
  exact ⟨h'.slot, h'.size, h'.readable⟩

end Layout

/-! ## Passes -/

section
variable {l l' : Layout} {ms : List Mention}

theorem houses_declare (h : l.Houses ms) {ds ds' : Declarations} {op : Operation} {declared : Declared}
    (ha : ds.add op = .ok (declared, ds')) : (l.declare declared).Houses (ms ++ declaredMentions op) := by
  cases op with
  | define index value =>
    simp only [Declarations.add, Declarations.define, except_bind_eq_ok] at ha
    obtain ⟨s, hs, ha⟩ := ha
    split at ha
    · cases ha
    · cases ha
      rw [declaredMentions, show index = UInt32.ofNat s from Register.slot_eq_ok.1 hs]
      exact h.define s value
  | declare texture d =>
    simp only [Declarations.add] at ha
    split at ha
    · rename_i hk
      obtain ⟨s, rfl⟩ := Declarations.declareSampler_declares ha
      rw [declaredMentions, if_neg (by rw [hk]; decide), List.append_nil]
      exact h
    · rename_i hk
      obtain ⟨rfl, hn⟩ := Declarations.declareCoordinate_declares ha
      rw [declaredMentions, if_pos hk]
      exact h.register (by simp [Register.readCell, hk, hn])
    · rename_i hk
      cases ha
      rw [declaredMentions, if_neg hk, List.append_nil]
      exact h
  | nop | texld | mov | unary | binary | ternary =>
    cases ha
    exact (List.append_nil ms).symm ▸ h

theorem houses_declareAll : ∀ (is : List Instruction) (ds : Declarations) (l l' : Layout) (index : Nat)
    (ms : List Mention), declareAll ds l index is = .ok l' → l.Houses ms →
      l'.Houses (ms ++ is.flatMap fun i => declaredMentions i.operation)
  | [], _, l, l', _, ms, h, hl => by
    cases h
    exact (List.append_nil ms).symm ▸ hl
  | i :: is, ds, l, l', index, ms, h, hl => by
    rw [declareAll_cons] at h
    split at h
    · cases h
    · rename_i declared ds' ha
      rw [List.flatMap_cons, ← List.append_assoc]
      exact houses_declareAll is ds' _ l' (index + 1) _ h (houses_declare hl ha)

theorem houses_foldl {α : Type} {g : Layout → α → Layout} {mention : α → Mention}
    (hg : ∀ (a : α) {l : Layout} {ms : List Mention}, l.Houses ms → (g l a).Houses (ms ++ [mention a])) :
    ∀ (as : List α) {l : Layout} {ms : List Mention}, l.Houses ms → (as.foldl g l).Houses (ms ++ as.map mention)
  | [], _, ms, h => (List.append_nil ms).symm ▸ h
  | a :: as, l, ms, h => by
    rw [List.foldl_cons, List.map_cons, List.append_cons]
    exact houses_foldl hg as (hg a h)

theorem houses_operand (h : l.Houses ms) {s : Source} {o : Operand} (ho : Lower.operand s l = .ok (o, l')) :
    l'.Houses (ms ++ [.register s.register]) := by
  obtain ⟨c, negate, hc, e⟩ := Lower.operand_eq_ok.1 ho
  cases e
  exact h.register (Source.cell_eq_ok.1 hc).1

theorem houses_target (h : l.Houses ms) {d : Destination} {t : Target} (ht : Lower.target d l = .ok (t, l')) :
    l'.Houses (ms ++ destinationMentions d) := by
  obtain ⟨c, hc, e⟩ := Lower.target_eq_ok.1 ht
  have hr := h.register (Destination.readCell_of_cell hc)
  unfold destinationMentions
  split at e
  · rename_i hm
    cases e
    rw [if_pos hm]
    exact hr
  · rename_i hm
    cases e
    rw [if_neg hm, List.append_cons]
    exact hr.mask d.mask

theorem houses_operation (h : l.Houses ms) {op : Operation} {s : Option Step}
    (hs : Lower.operation op l = .ok (s, l')) : l'.Houses (ms ++ operationMentions op) := by
  have hop : ∀ (d : Destination) (as : List Source), op.dest? = some d → op.operands = as →
      operationMentions op = destinationMentions d ++ as.map fun a => .register a.register := by
    intro d as hd ha
    simp [operationMentions, hd, ha]
  cases op with
  | nop | define | declare =>
    cases Lower.pure_eq_ok.1 hs
    exact (List.append_nil ms).symm ▸ h
  | texld d a b =>
    simp only [Lower.operation, Lower.bind_eq_ok, Lower.lift_eq_ok, Lower.slot_eq_ok, Lower.pure_eq_ok,
      exists_eq_left] at hs
    obtain ⟨⟨t, l₁⟩, ht, ⟨o, l₂⟩, ho, ⟨slot, l₃⟩, ⟨-, hl⟩, e⟩ := hs
    cases hl
    cases e
    rw [hop d [a] rfl rfl, ← List.append_assoc]
    exact (houses_operand (houses_target h ht) ho).sampler slot
  | mov d a =>
    simp only [Lower.operation, Lower.bind_eq_ok, Lower.pure_eq_ok] at hs
    obtain ⟨⟨t, l₁⟩, ht, ⟨o, l₂⟩, ho, e⟩ := hs
    cases e
    rw [hop d [a] rfl rfl, ← List.append_assoc]
    exact houses_operand (houses_target h ht) ho
  | unary op d a =>
    simp only [Lower.operation, Lower.bind_eq_ok, Lower.pure_eq_ok] at hs
    obtain ⟨⟨t, l₁⟩, ht, ⟨o, l₂⟩, ho, e⟩ := hs
    cases e
    rw [hop d [a] rfl rfl, ← List.append_assoc]
    exact houses_operand (houses_target h ht) ho
  | binary op d a b =>
    simp only [Lower.operation, Lower.bind_eq_ok, Lower.pure_eq_ok] at hs
    obtain ⟨⟨t, l₁⟩, ht, ⟨o₁, l₂⟩, ho₁, ⟨o₂, l₃⟩, ho₂, e⟩ := hs
    cases e
    rw [hop d [a, b] rfl rfl, ← List.append_assoc]
    simpa using houses_operand (houses_operand (houses_target h ht) ho₁) ho₂
  | ternary op d a b c =>
    simp only [Lower.operation, Lower.bind_eq_ok, Lower.lift_eq_ok, Lower.pure_eq_ok] at hs
    obtain ⟨⟨u, l₀⟩, ⟨-, hl⟩, ⟨t, l₁⟩, ht, ⟨o₁, l₂⟩, ho₁, ⟨o₂, l₃⟩, ho₂, ⟨o₃, l₄⟩, ho₃, e⟩ := hs
    cases hl
    cases e
    rw [hop d [a, b, c] rfl rfl, ← List.append_assoc]
    simpa using houses_operand (houses_operand (houses_operand (houses_target h ht) ho₁) ho₂) ho₃

theorem houses_lowerAll : ∀ (is : List Instruction) (l l' : Layout) (index : Nat) (done steps : Array Step)
    (ms : List Mention), lowerAll l index done is = .ok (steps, l') → l.Houses ms →
      l'.Houses (ms ++ is.flatMap fun i => operationMentions i.operation)
  | [], l, l', _, _, _, ms, h, hl => by
    cases h
    exact (List.append_nil ms).symm ▸ hl
  | i :: is, l, l', index, done, steps, ms, h, hl => by
    unfold lowerAll at h
    split at h
    · cases h
    · rename_i step l₁ hs
      rw [List.flatMap_cons, ← List.append_assoc]
      exact houses_lowerAll is l₁ l' (index + 1) _ steps _ h (houses_operation hl hs)

end

section
variable {p : Program} {steps : Array Step} {l : Layout}

/-- **A finished layout has one slot for each thing that its program mentions.** -/
theorem houses_lower (h : lower p = .ok (steps, l)) : l.Houses (mentions p) := by
  simp only [lower, header, except_bind_eq_ok, pure, Except.pure, Except.ok.injEq] at h
  obtain ⟨_, ⟨l₀, h₀, rfl⟩, h₁⟩ := h
  have hd := houses_declareAll _ _ _ _ _ _ h₀ Layout.houses_empty
  have hx := houses_foldl (fun s _ _ h => h.takeExternal s) p.externalConstants hd
  have hm := houses_foldl (fun m _ _ h => h.mask m) p.partialMasks hx
  exact houses_lowerAll _ _ _ _ _ _ _ h₁ hm

/-! ## Mentions in the text -/

theorem mem_declaredMentions {op : Operation} {r : Register} : .register r ∈ declaredMentions op ↔
    r.kind = .constant ∧ op.defined? = some r.number ∨ r.kind = .texture ∧ op.declared? = some r := by
  obtain ⟨kind, number⟩ := r
  cases op with
  | define index value => simp [declaredMentions, Operation.defined?, Operation.declared?, eq_comm]
  | declare texture d =>
    simp only [declaredMentions, Operation.defined?, Operation.declared?]
    by_cases hk : d.register.kind = .texture
    · rw [if_pos hk]
      simp only [List.mem_singleton, Mention.register.injEq, reduceCtorEq, and_false, false_or, Option.some.injEq]
      exact ⟨fun e => ⟨by rw [← e] at hk; exact hk, e.symm⟩, fun e => e.2.symm⟩
    · rw [if_neg hk]
      simp only [List.not_mem_nil, reduceCtorEq, and_false, false_or, Option.some.injEq, false_iff]
      rintro ⟨rfl, e⟩
      exact hk (by rw [e])
  | nop | texld | mov | unary | binary | ternary =>
    simp [declaredMentions, Operation.defined?, Operation.declared?]

theorem mask_notMem_declaredMentions (op : Operation) (m : WriteMask) : .mask m ∉ declaredMentions op := by
  cases op with
  | declare texture d =>
    unfold declaredMentions
    split <;> simp
  | _ => simp [declaredMentions]

theorem mem_destinationMentions {d : Destination} {r : Register} :
    .register r ∈ destinationMentions d ↔ d.register = r := by
  unfold destinationMentions
  split <;> simp [eq_comm]

theorem mask_mem_destinationMentions {d : Destination} {m : WriteMask} :
    .mask m ∈ destinationMentions d ↔ d.mask = m ∧ m.isFull = false := by
  unfold destinationMentions
  by_cases hm : d.mask.isFull = true
  · rw [if_pos hm]
    simp only [List.mem_singleton, reduceCtorEq, false_iff]
    rintro ⟨rfl, h⟩
    rw [h] at hm
    cases hm
  · rw [if_neg hm]
    simp only [List.mem_cons, reduceCtorEq, Mention.mask.injEq, List.not_mem_nil, or_false, false_or]
    exact ⟨fun e => ⟨e.symm, by rw [e]; simpa using hm⟩, fun e => e.1.symm⟩

theorem mem_operands_of_mem_sources {op : Operation} (hs : op.Supported) {a : Source} (ha : a ∈ op.sources)
    (hk : a.register.kind ≠ .samplerState) : a ∈ op.operands := by
  cases op with
  | texld d coord sampler =>
    simp only [Operation.sources, List.mem_cons, List.not_mem_nil, or_false] at ha
    rcases ha with rfl | rfl
    · simp [Operation.operands]
    · obtain ⟨slot, hslot⟩ := hs.sampler a rfl
      rw [Source.samplerSlot, if_pos hk] at hslot
      cases hslot
  | _ => exact ha

theorem mask_mem_operationMentions {op : Operation} {m : WriteMask} : .mask m ∈ operationMentions op ↔
    (∃ d, op.dest? = some d ∧ d.mask = m) ∧ m.isFull = false := by
  simp only [operationMentions, List.mem_append, List.mem_flatMap, Option.mem_toList, mask_mem_destinationMentions,
    List.mem_map, reduceCtorEq, and_false, exists_false, or_false]
  constructor
  · rintro ⟨d, hd, hm, hf⟩
    exact ⟨⟨d, hd, hm⟩, hf⟩
  · rintro ⟨⟨d, hd, hm⟩, hf⟩
    exact ⟨d, hd, hm, hf⟩

theorem mem_operationMentions {op : Operation} (hs : op.Supported) {r : Register} (hk : r.kind ≠ .samplerState) :
    .register r ∈ operationMentions op ↔
      (∃ d, op.dest? = some d ∧ d.register = r) ∨ ∃ a ∈ op.sources, a.register = r := by
  simp only [operationMentions, List.mem_append, List.mem_flatMap, Option.mem_toList, mem_destinationMentions,
    List.mem_map, Mention.register.injEq]
  refine or_congr_right ⟨?_, ?_⟩
  · rintro ⟨a, ha, e⟩
    exact ⟨a, Operation.mem_sources_of_mem_operands ha, e⟩
  · rintro ⟨a, ha, e⟩
    exact ⟨a, mem_operands_of_mem_sources hs ha (e ▸ hk), e⟩

theorem mask_mem_mentions {p : Program} {m : WriteMask} : .mask m ∈ mentions p ↔ m ∈ p.writtenPartly := by
  simp only [mentions, List.mem_append, List.mem_flatMap, List.mem_map, mask_notMem_declaredMentions, reduceCtorEq,
    and_false, exists_false, false_or, Mention.mask.injEq, exists_eq_right, mask_mem_operationMentions]
  constructor
  · rintro (hm | ⟨i, hi, hd, hf⟩)
    · exact Program.mem_writtenPartly_of_mem_partialMasks hm
    · exact Program.mem_writtenPartly.2 ⟨⟨i, hi, hd⟩, hf⟩
  · intro hm
    obtain ⟨⟨i, hi, hd⟩, hf⟩ := Program.mem_writtenPartly.1 hm
    exact .inr ⟨i, hi, hd, hf⟩

theorem register_mem_mentions {p : Program} (hs : ∀ i ∈ p.instructions, i.operation.Supported) {r : Register}
    (hk : r.kind ≠ .samplerState) : .register r ∈ mentions p ↔
      r.kind = .constant ∧ r.number ∈ p.defined ∨ r.kind = .texture ∧ r ∈ p.declared ∨ r ∈ p.written ∨ r ∈ p.read := by
  simp only [mentions, List.mem_append, List.mem_flatMap, List.mem_map, reduceCtorEq, and_false, exists_false, or_false,
    Mention.register.injEq, mem_declaredMentions, Program.mem_defined, Program.mem_declared, Program.mem_written,
    Program.mem_read]
  constructor
  · rintro ((⟨i, hi, ⟨hc, hd⟩ | ⟨ht, hd⟩⟩ | ⟨s, hx, rfl⟩) | ⟨i, hi, hm⟩)
    · exact .inl ⟨hc, i, hi, hd⟩
    · exact .inr (.inl ⟨ht, i, hi, hd⟩)
    · exact .inr (.inr (.inr ((p.mem_externalConstants s).1 hx).1))
    · rcases (mem_operationMentions (hs i hi) hk).1 hm with hd | ha
      · exact .inr (.inr (.inl ⟨i, hi, hd⟩))
      · exact .inr (.inr (.inr ⟨i, hi, ha⟩))
  · rintro (⟨hc, i, hi, hd⟩ | ⟨ht, i, hi, hd⟩ | ⟨i, hi, hd⟩ | ⟨i, hi, ha⟩)
    · exact .inl (.inl ⟨i, hi, .inl ⟨hc, hd⟩⟩)
    · exact .inl (.inl ⟨i, hi, .inr ⟨ht, hd⟩⟩)
    · exact .inr ⟨i, hi, (mem_operationMentions (hs i hi) hk).2 (.inl hd)⟩
    · exact .inr ⟨i, hi, (mem_operationMentions (hs i hi) hk).2 (.inr ha)⟩

theorem kind_of_mem_written {p : Program} (hs : ∀ i ∈ p.instructions, i.operation.Supported) {r : Register}
    (hr : r ∈ p.written) : r.kind = .temp ∨ r.kind = .colorOut := by
  obtain ⟨i, hi, d, hd, rfl⟩ := Program.mem_written.1 hr
  obtain ⟨c, hc⟩ := (hs i hi).dest d hd
  rw [← Register.register_of_readCell (Destination.readCell_of_cell hc)]
  rcases Destination.cell_file hc with hf | rfl
  · exact .inl (by rw [Cell.register, hf]; rfl)
  · exact .inr rfl

/-! ## The count -/

def Mention.kind? : Mention → Option RegisterKind
  | register r => some r.kind
  | mask _ => none

theorem card_filter_kind? {α : Type} [DecidableEq α] {ms : List Mention} {kind? : Option RegisterKind} {g : α → Mention}
    (hg : Function.Injective g) {xs : List α} (h : ∀ m, m ∈ ms ∧ m.kind? = kind? ↔ ∃ x ∈ xs, g x = m) :
    (ms.toFinset.filter fun m => m.kind? = kind?).card = xs.dedup.length := by
  have himage : (ms.toFinset.filter fun m => m.kind? = kind?) = xs.toFinset.image g := by
    ext m
    simp [h]
  rw [himage, Finset.card_image_of_injective _ hg, List.card_toFinset]

theorem card_registers {ms : List Mention} {kind : RegisterKind} {ns : List UInt32}
    (h : ∀ n, .register ⟨kind, n⟩ ∈ ms ↔ n ∈ ns) :
    (ms.toFinset.filter fun m => m.kind? = some kind).card = ns.dedup.length := by
  refine card_filter_kind? (g := fun n => .register ⟨kind, n⟩) (fun a b e => by cases e; rfl) fun m => ?_
  constructor
  · rintro ⟨hm, hk⟩
    cases m with
    | mask m => cases hk
    | register r =>
      cases hk
      exact ⟨r.number, (h r.number).1 hm, rfl⟩
  · rintro ⟨n, hn, rfl⟩
    exact ⟨(h n).2 hn, rfl⟩

theorem card_masks {ms : List Mention} {masks : List WriteMask} (h : ∀ m, .mask m ∈ ms ↔ m ∈ masks) :
    (ms.toFinset.filter fun m => m.kind? = none).card = masks.dedup.length := by
  refine card_filter_kind? (g := .mask) (fun a b e => by cases e; rfl) fun m => ?_
  constructor
  · rintro ⟨hm, hk⟩
    cases m with
    | mask m => exact ⟨m, (h m).1 hm, rfl⟩
    | register r => cases hk
  · rintro ⟨m, hm, rfl⟩
    exact ⟨(h m).2 hm, rfl⟩

theorem length_dedup_numbersOf {kind : RegisterKind} {rs : List Register} (h : ∀ n, ⟨kind, n⟩ ∈ rs → n = 0) :
    (numbersOf kind rs).dedup.length = if ⟨kind, 0⟩ ∈ rs then 1 else 0 := by
  rw [← List.card_toFinset]
  by_cases h0 : ⟨kind, 0⟩ ∈ rs
  · rw [if_pos h0, Finset.card_eq_one]
    refine ⟨0, ?_⟩
    ext n
    rw [List.mem_toFinset, mem_numbersOf, Finset.mem_singleton]
    exact ⟨h n, fun e => e ▸ h0⟩
  · rw [if_neg h0, Finset.card_eq_zero]
    ext n
    rw [List.mem_toFinset, mem_numbersOf]
    exact ⟨fun hn => absurd (h n hn ▸ hn) h0, fun hn => absurd hn (Finset.notMem_empty n)⟩

theorem number_of_readCell {r : Register} {c : Cell} (h : r.readCell = .ok c)
    (hk : r.kind = .colorOut ∨ r.kind = .texture) : r.number = 0 := by
  unfold Register.readCell at h
  rcases hk with hk | hk
  · simp only [hk, Register.colorCell] at h
    split at h
    · assumption
    · cases h
  · simp only [hk] at h
    split at h
    · assumption
    · cases h

/-- **The size of a frame.**  It is the number of constants that are defined or read, of temporary registers, of the
colour and the coordinate if they occur, and of partial masks, each counted once. -/
theorem size_entry_of_lower (h : lower p = .ok (steps, l)) :
    l.entry.size = (p.defined ++ numbersOf .constant p.read).dedup.length
      + (numbersOf .temp (p.written ++ p.read)).dedup.length
      + (if ⟨.colorOut, 0⟩ ∈ p.written ++ p.read then 1 else 0)
      + (if ⟨.texture, 0⟩ ∈ p.declared ++ p.read then 1 else 0)
      + p.writtenPartly.dedup.length := by
  have hh := houses_lower h
  have hs := (lower_spec h).supported
  have hconstant : ∀ n, .register ⟨.constant, n⟩ ∈ mentions p ↔ n ∈ p.defined ++ numbersOf .constant p.read := by
    intro n
    have hn : ⟨.constant, n⟩ ∉ p.written := fun hw => by simpa using kind_of_mem_written hs hw
    rw [register_mem_mentions hs (by simp), List.mem_append, mem_numbersOf]
    simp [hn]
  have htemp : ∀ n, .register ⟨.temp, n⟩ ∈ mentions p ↔ n ∈ numbersOf .temp (p.written ++ p.read) := by
    intro n
    rw [register_mem_mentions hs (by simp), mem_numbersOf]
    simp
  have hcolor : ∀ n, .register ⟨.colorOut, n⟩ ∈ mentions p ↔ n ∈ numbersOf .colorOut (p.written ++ p.read) := by
    intro n
    rw [register_mem_mentions hs (by simp), mem_numbersOf]
    simp
  have htexture : ∀ n, .register ⟨.texture, n⟩ ∈ mentions p ↔ n ∈ numbersOf .texture (p.declared ++ p.read) := by
    intro n
    have hn : ⟨.texture, n⟩ ∉ p.written := fun hw => by simpa using kind_of_mem_written hs hw
    rw [register_mem_mentions hs (by simp), mem_numbersOf]
    simp [hn]
  have hcolor_zero : ∀ n, ⟨.colorOut, n⟩ ∈ p.written ++ p.read → n = 0 := fun n hn => by
    obtain ⟨c, hc⟩ := hh.readable _ ((hcolor n).2 (mem_numbersOf.2 hn))
    exact number_of_readCell hc (.inl rfl)
  have htexture_zero : ∀ n, ⟨.texture, n⟩ ∈ p.declared ++ p.read → n = 0 := fun n hn => by
    obtain ⟨c, hc⟩ := hh.readable _ ((htexture n).2 (mem_numbersOf.2 hn))
    exact number_of_readCell hc (.inr rfl)
  have hkinds : Set.MapsTo Mention.kind? ((mentions p).toFinset : Set Mention)
      (({some .constant, some .temp, some .colorOut, some .texture, none} : Finset (Option RegisterKind)) :
        Set (Option RegisterKind)) := by
    rintro (r | m) hm
    · obtain ⟨⟨file, s⟩, hc⟩ := hh.readable r (by simpa using hm)
      rw [← Register.register_of_readCell hc]
      cases file <;> simp [Mention.kind?, Cell.register, RegisterFile.kind]
    · simp [Mention.kind?]
  rw [hh.size, Finset.card_eq_sum_card_fiberwise hkinds, Finset.sum_insert (by decide), Finset.sum_insert (by decide),
    Finset.sum_insert (by decide), Finset.sum_insert (by decide), Finset.sum_singleton, card_registers hconstant,
    card_registers htemp, card_registers hcolor, card_registers htexture, card_masks fun m => mask_mem_mentions,
    length_dedup_numbersOf hcolor_zero, length_dedup_numbersOf htexture_zero]
  simp only [Nat.add_assoc]

end
end Kernel
end PixelShader
