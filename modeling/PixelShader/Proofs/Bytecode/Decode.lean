import Mathlib
import PixelShader.Proofs.Bytecode.Grammar
/-!
# The decoder reads the grammar

A reader recognises a relation between tokens and values when it takes a value from the front of the tokens exactly
where the relation holds (`Reader.Recognises`).  Readers are put together from a few, and so is what they recognise;
each reader of the decoder recognises its part of the grammar, down to items.  The loop over items then reads the whole
stream (`readItems_eq_ok`), and so the decoder accepts what the grammar describes and nothing else.
-/
namespace PixelShader.Bytecode

/-! ## What a reader recognises -/

namespace Reader

/-- The reader takes `a` exactly from tokens that `R` relates to `a`, and leaves what is behind them. -/
def Recognises {α : Type} (r : Reader α) (R : List UInt32 → α → Prop) : Prop :=
  ∀ (c c' : Cursor) (a : α), r c = .ok (a, c') ↔
    ∃ ts, R ts a ∧ c.rest = ts ++ c'.rest ∧ c'.position = c.position + ts.length

section
variable {α β : Type}

theorem Recognises.congr {r : Reader α} {R S : List UInt32 → α → Prop} (h : r.Recognises R)
    (hRS : ∀ ts a, R ts a ↔ S ts a) : r.Recognises S := fun c c' a => by
  simp only [h c c' a, hRS]

theorem recognises_pure (a : α) : Recognises (pure a) fun ts b => ts = [] ∧ b = a := by
  rintro ⟨n, rest⟩ ⟨n', rest'⟩ b
  constructor
  · intro h
    cases h
    exact ⟨[], ⟨rfl, rfl⟩, rfl, rfl⟩
  · rintro ⟨ts, ⟨rfl, rfl⟩, hr, hp⟩
    cases hr
    cases hp
    rfl

theorem recognises_throw (fault : DecodeFault) : Recognises (throw fault : Reader α) fun _ _ => False := by
  intro c c' a
  constructor
  · intro h
    cases h
  · rintro ⟨ts, hf, -⟩
    exact hf.elim

theorem Recognises.bind {r : Reader α} {f : α → Reader β} {R : List UInt32 → α → Prop}
    {S : α → List UInt32 → β → Prop} (hr : r.Recognises R) (hf : ∀ a, (f a).Recognises (S a)) :
    Recognises (r >>= f) fun ts b => ∃ a us vs, R us a ∧ S a vs b ∧ ts = us ++ vs := by
  intro c c' b
  constructor
  · intro h
    obtain ⟨a, d, h₁, h₂⟩ := bind_eq_ok h
    obtain ⟨us, hus, hrest, hpos⟩ := (hr c d a).1 h₁
    obtain ⟨vs, hvs, hrest', hpos'⟩ := (hf a d c' b).1 h₂
    refine ⟨us ++ vs, ⟨a, us, vs, hus, hvs, rfl⟩, ?_, ?_⟩
    · rw [hrest, hrest', List.append_assoc]
    · rw [hpos', hpos, List.length_append, Nat.add_assoc]
  · rintro ⟨ts, ⟨a, us, vs, hus, hvs, rfl⟩, hrest, hpos⟩
    have h₁ : r c = .ok (a, ⟨c.position + us.length, vs ++ c'.rest⟩) :=
      (hr c _ a).2 ⟨us, hus, by rw [hrest, List.append_assoc], rfl⟩
    have h₂ : f a ⟨c.position + us.length, vs ++ c'.rest⟩ = .ok (b, c') :=
      (hf a _ c' b).2 ⟨vs, hvs, rfl, by rw [hpos, List.length_append, Nat.add_assoc]⟩
    simp only [Bind.bind, StateT.bind, h₁, Except.bind, h₂]

theorem recognises_position {f : Nat → Reader α} {R : List UInt32 → α → Prop} (h : ∀ n, (f n).Recognises R) :
    Recognises (position >>= f) R := fun c c' a => h c.position c c' a

/-- The reader takes a single token that `P` relates to its value. -/
def Takes (r : Reader α) (P : UInt32 → α → Prop) : Prop := r.Recognises fun ts a => ∃ t, P t a ∧ ts = [t]

theorem Takes.bind {r : Reader α} {f : α → Reader β} {P : UInt32 → α → Prop} {S : α → List UInt32 → β → Prop}
    (hr : r.Takes P) (hf : ∀ a, (f a).Recognises (S a)) :
    Recognises (r >>= f) fun ts b => ∃ t a vs, P t a ∧ S a vs b ∧ ts = t :: vs := by
  refine (Recognises.bind hr hf).congr fun ts b => ⟨?_, ?_⟩
  · rintro ⟨a, _, vs, ⟨t, ht, rfl⟩, hvs, rfl⟩
    exact ⟨t, a, vs, ht, hvs, rfl⟩
  · rintro ⟨t, a, vs, ht, hvs, rfl⟩
    exact ⟨a, [t], vs, ⟨t, ht, rfl⟩, hvs, rfl⟩

theorem takes_next : next.Takes fun t a => a = t := by
  rintro ⟨n, rest⟩ ⟨n', rest'⟩ t
  constructor
  · intro h
    unfold next at h
    split at h
    · cases h
    · rename_i t' rest'' hc
      cases h
      exact ⟨[t], ⟨t, rfl, rfl⟩, hc, rfl⟩
  · rintro ⟨ts, ⟨t, rfl, rfl⟩, hr, hp⟩
    cases hr
    obtain rfl : n' = n + 1 := hp
    rfl

theorem dropExactly_eq_some : ∀ (n : Nat) (l l' : List α),
    dropExactly n l = some l' ↔ ∃ ts, ts.length = n ∧ l = ts ++ l'
  | 0, l, l' => by
    simp [dropExactly, List.length_eq_zero_iff]
  | n + 1, [], l' => by
    simp only [dropExactly, reduceCtorEq, false_iff, not_exists, not_and]
    rintro ts hl he
    rw [(List.nil_eq_append_iff.1 he).1] at hl
    cases hl
  | n + 1, t :: l, l' => by
    rw [dropExactly, dropExactly_eq_some n l l']
    constructor
    · rintro ⟨ts, rfl, rfl⟩
      exact ⟨t :: ts, rfl, rfl⟩
    · rintro ⟨ts, hl, he⟩
      cases ts with
      | nil => cases hl
      | cons t' ts =>
        cases he
        exact ⟨ts, Nat.succ.inj hl, rfl⟩

theorem recognises_skip (n : Nat) : Recognises (skip n) fun ts _ => ts.length = n := by
  intro c c' a
  constructor
  · intro h
    unfold skip at h
    split at h
    · cases h
    · rename_i rest hd
      cases h
      obtain ⟨ts, rfl, hr⟩ := (dropExactly_eq_some _ _ _).1 hd
      exact ⟨ts, rfl, hr, rfl⟩
  · rintro ⟨ts, rfl, hr, hp⟩
    unfold skip
    rw [(dropExactly_eq_some _ _ _).2 ⟨ts, rfl, hr⟩, ← hp]

theorem recognises_ite_throw {p : Prop} [Decidable p] (fault : DecodeFault) {r : Reader α} {R : List UInt32 → α → Prop}
    (h : r.Recognises R) : Recognises (if p then throw fault else r) fun ts a => ¬ p ∧ R ts a := by
  split
  · rename_i hp
    exact (recognises_throw fault).congr fun ts a => by simp [hp]
  · rename_i hp
    exact h.congr fun ts a => by simp [hp]

theorem takes_parameter {read : UInt32 → Except RegisterFault α} {register : α → Register} :
    (parameter read register).Takes fun t a => read t = .ok a ∧ (register a).number.toNat < 32 := by
  refine recognises_position fun n => (takes_next.bind
    (S := fun t ts a => (read t = .ok a ∧ (register a).number.toNat < 32) ∧ ts = []) fun t => ?_).congr
      fun ts a => ⟨?_, ?_⟩
  · cases ht : read t with
    | error cause => exact (recognises_throw _).congr fun ts a => by simp
    | ok a =>
      have hin : ¬ ¬ (register a).inRange = true ↔ (register a).number.toNat < 32 := by simp [Register.inRange]
      show Recognises (if (register a).inRange then pure a else _) _
      rw [← ite_not]
      refine (recognises_ite_throw _ (recognises_pure a)).congr fun ts b => ⟨?_, ?_⟩
      · rintro ⟨hr, rfl, rfl⟩
        exact ⟨⟨rfl, hin.1 hr⟩, rfl⟩
      · rintro ⟨⟨he, hlt⟩, rfl⟩
        cases he
        exact ⟨hin.2 hlt, rfl, rfl⟩
  · rintro ⟨t, _, vs, rfl, ⟨h, rfl⟩, rfl⟩
    exact ⟨_, h, rfl⟩
  · rintro ⟨t, h, rfl⟩
    exact ⟨t, t, [], rfl, ⟨h, rfl⟩, rfl⟩

theorem takes_destination : destination.Takes IsDestination := takes_parameter

theorem takes_source : source.Takes IsSource := takes_parameter

theorem takes_lane : lane.Takes fun t a => a = ⟨t⟩ := by
  refine (takes_next.bind fun t => recognises_pure (Lane.mk t)).congr fun ts a => ⟨?_, ?_⟩
  · rintro ⟨t, _, vs, rfl, ⟨rfl, rfl⟩, rfl⟩
    exact ⟨_, rfl, rfl⟩
  · rintro ⟨t, rfl, rfl⟩
    exact ⟨t, t, [], rfl, ⟨rfl, rfl⟩, rfl⟩

end

end Reader

open Reader

/-! ## Operands -/

theorem recognises_readDefinition : readDefinition.Recognises (Operands .definition) := by
  refine recognises_position fun n => (takes_destination.bind fun d => takes_lane.bind fun x => takes_lane.bind fun y =>
    takes_lane.bind fun z => takes_lane.bind fun w => recognises_ite_throw _ (recognises_ite_throw _
      (recognises_pure (Operation.define d.register.number ⟨x, y, z, w⟩)))).congr fun ts o => ⟨?_, ?_⟩
  · rintro ⟨t, d, _, hd, ⟨x, _, _, rfl, ⟨y, _, _, rfl, ⟨z, _, _, rfl, ⟨w, _, _, rfl,
      ⟨hk, hm, rfl, rfl⟩, rfl⟩, rfl⟩, rfl⟩, rfl⟩, rfl⟩
    exact .definition x y z w hd (by simpa using hk) (by simpa [WriteMask.isFull] using hm)
  · intro h
    cases h with
    | definition x y z w hd hk hm =>
      exact ⟨_, _, _, hd, ⟨x, _, _, rfl, ⟨y, _, _, rfl, ⟨z, _, _, rfl, ⟨w, _, _, rfl,
        ⟨by simp [hk], by simp [WriteMask.isFull, hm], rfl, rfl⟩, rfl⟩, rfl⟩, rfl⟩, rfl⟩, rfl⟩

theorem Shape.recognises_read (s : Shape) : s.read.Recognises (Operands s) := by
  cases s with
  | nop =>
    refine (recognises_pure Operation.nop).congr fun ts o => ⟨?_, ?_⟩
    · rintro ⟨rfl, rfl⟩
      exact .nop
    · intro h
      cases h with
      | nop => exact ⟨rfl, rfl⟩
  | mov =>
    refine (takes_destination.bind fun d => takes_source.bind fun a => recognises_pure (Operation.mov d a)).congr
      fun ts o => ⟨?_, ?_⟩
    · rintro ⟨t, d, _, hd, ⟨u, a, _, ha, ⟨rfl, rfl⟩, rfl⟩, rfl⟩
      exact .mov hd ha
    · intro h
      cases h with
      | mov hd ha => exact ⟨_, _, _, hd, ⟨_, _, _, ha, ⟨rfl, rfl⟩, rfl⟩, rfl⟩
  | unary op =>
    refine (takes_destination.bind fun d => takes_source.bind fun a => recognises_pure (Operation.unary op d a)).congr
      fun ts o => ⟨?_, ?_⟩
    · rintro ⟨t, d, _, hd, ⟨u, a, _, ha, ⟨rfl, rfl⟩, rfl⟩, rfl⟩
      exact .unary op hd ha
    · intro h
      cases h with
      | unary _ hd ha => exact ⟨_, _, _, hd, ⟨_, _, _, ha, ⟨rfl, rfl⟩, rfl⟩, rfl⟩
  | binary op =>
    refine (takes_destination.bind fun d => takes_source.bind fun a => takes_source.bind fun b =>
      recognises_pure (Operation.binary op d a b)).congr fun ts o => ⟨?_, ?_⟩
    · rintro ⟨t, d, _, hd, ⟨u, a, _, ha, ⟨v, b, _, hb, ⟨rfl, rfl⟩, rfl⟩, rfl⟩, rfl⟩
      exact .binary op hd ha hb
    · intro h
      cases h with
      | binary _ hd ha hb => exact ⟨_, _, _, hd, ⟨_, _, _, ha, ⟨_, _, _, hb, ⟨rfl, rfl⟩, rfl⟩, rfl⟩, rfl⟩
  | ternary op =>
    refine (takes_destination.bind fun d => takes_source.bind fun a => takes_source.bind fun b =>
      takes_source.bind fun c => recognises_pure (Operation.ternary op d a b c)).congr fun ts o => ⟨?_, ?_⟩
    · rintro ⟨t, d, _, hd, ⟨u, a, _, ha, ⟨v, b, _, hb, ⟨w, c, _, hc, ⟨rfl, rfl⟩, rfl⟩, rfl⟩, rfl⟩, rfl⟩
      exact .ternary op hd ha hb hc
    · intro h
      cases h with
      | ternary _ hd ha hb hc =>
        exact ⟨_, _, _, hd, ⟨_, _, _, ha, ⟨_, _, _, hb, ⟨_, _, _, hc, ⟨rfl, rfl⟩, rfl⟩, rfl⟩, rfl⟩, rfl⟩
  | declaration =>
    refine (takes_next.bind fun kind => takes_destination.bind fun d =>
      recognises_pure (Operation.declare (readTextureKind kind) d)).congr fun ts o => ⟨?_, ?_⟩
    · rintro ⟨_, kind, _, rfl, ⟨t, d, _, hd, ⟨rfl, rfl⟩, rfl⟩, rfl⟩
      exact .declaration kind hd
    · intro h
      cases h with
      | declaration kind hd => exact ⟨kind, kind, _, rfl, ⟨_, _, _, hd, ⟨rfl, rfl⟩, rfl⟩, rfl⟩
  | texld =>
    refine (takes_destination.bind fun d => takes_source.bind fun a => takes_source.bind fun b =>
      recognises_pure (Operation.texld d a b)).congr fun ts o => ⟨?_, ?_⟩
    · rintro ⟨t, d, _, hd, ⟨u, a, _, ha, ⟨v, b, _, hb, ⟨rfl, rfl⟩, rfl⟩, rfl⟩, rfl⟩
      exact .texld hd ha hb
    · intro h
      cases h with
      | texld hd ha hb => exact ⟨_, _, _, hd, ⟨_, _, _, ha, ⟨_, _, _, hb, ⟨rfl, rfl⟩, rfl⟩, rfl⟩, rfl⟩
  | definition => exact recognises_readDefinition

/-! ## Items -/

theorem shape?_eq_some {opcode : Nat} {s : Shape} : shape? opcode = some s ↔ s.HasOpcode opcode := by
  constructor
  · intro h
    unfold shape? at h
    split at h <;> cases h
    all_goals simp [Shape.HasOpcode, Shape.opcode]
  · rintro (rfl | ⟨rfl, rfl⟩)
    · exact s.shape?_opcode
    · rfl

theorem recognises_readOperation (opcode index : Nat) :
    (readOperation opcode index).Recognises fun ts o => ∃ s : Shape, s.HasOpcode opcode ∧ Operands s ts o := by
  unfold readOperation
  simp only [← shape?_eq_some]
  cases shape? opcode with
  | none => exact (recognises_throw _).congr fun ts o => by simp
  | some s => exact s.recognises_read.congr fun ts o => by simp

theorem field_eq (t : UInt32) (low width : Nat) : field t low width = t.toNat / 2 ^ low % 2 ^ width := by
  rw [field, Nat.shiftRight_eq_div_pow, Nat.one_shiftLeft]

theorem opcodeOf_eq (t : UInt32) : opcodeOf t = t.toNat % 0x10000 := by
  simp only [opcodeOf, field_eq, Nat.pow_zero, Nat.div_one, Nat.reducePow]

theorem isPredicated_eq (t : UInt32) : isPredicated t = t.toNat.testBit 28 := by
  simp only [isPredicated, field_eq, Nat.testBit_eq_decide_div_mod_eq, beq_eq_decide, Nat.pow_one]

theorem Shape.HasOpcode.lt {s : Shape} {opcode : Nat} (h : s.HasOpcode opcode) : opcode < 0xfffe := by
  rcases h with rfl | ⟨rfl, -⟩
  · cases s with
    | unary op => cases op <;> decide
    | binary op => cases op <;> decide
    | ternary op => cases op <;> decide
    | _ => decide
  · decide

inductive Parses : List UInt32 → Item → Prop
  | stop {t} : IsEnd t → Parses [t] .stop
  | comment {t body} : IsComment t body.length → Parses (t :: body) .comment
  | instruction {ts i} : Spells ts i → Parses ts (.instruction i)

theorem Spells.lt {t : UInt32} {ts : List UInt32} {i : Instruction} (h : Spells (t :: ts) i) :
    t.toNat % 0x10000 < 0xfffe := by
  cases h with
  | plain ho _ _ => exact ho.lt
  | predicated ho _ _ _ => exact ho.lt

theorem recognises_readInstruction (index : Nat) (t : UInt32) :
    Recognises (do
      let operation ← readOperation (opcodeOf t) index
      if isPredicated t then return Item.instruction ⟨operation, some (← source)⟩
      else return .instruction ⟨operation, none⟩)
    fun ts item => ∃ i, Spells (t :: ts) i ∧ item = .instruction i := by
  have hrest : ∀ o : Operation, Recognises
      (if isPredicated t then do return Item.instruction ⟨o, some (← source)⟩ else return .instruction ⟨o, none⟩)
      fun ts item => t.toNat.testBit 28 = false ∧ ts = [] ∧ item = .instruction ⟨o, none⟩ ∨
        t.toNat.testBit 28 = true ∧ ∃ u q, IsSource u q ∧ ts = [u] ∧ item = .instruction ⟨o, some q⟩ := by
    intro o
    rw [isPredicated_eq]
    cases t.toNat.testBit 28 with
    | false => exact (recognises_pure _).congr fun ts item => by simp
    | true =>
      refine (takes_source.bind fun q => recognises_pure (Item.instruction ⟨o, some q⟩)).congr fun ts item => ⟨?_, ?_⟩
      · rintro ⟨u, q, _, hq, ⟨rfl, rfl⟩, rfl⟩
        exact .inr ⟨rfl, u, q, hq, rfl, rfl⟩
      · rintro (⟨he, -⟩ | ⟨-, u, q, hq, rfl, rfl⟩)
        · cases he
        · exact ⟨u, q, [], hq, ⟨rfl, rfl⟩, rfl⟩
  refine ((recognises_readOperation _ index).bind hrest).congr fun ts item => ?_
  rw [opcodeOf_eq]
  constructor
  · rintro ⟨o, us, _, ⟨s, ho, hs⟩, ⟨hb, rfl, rfl⟩ | ⟨hb, u, q, hq, rfl, rfl⟩, rfl⟩
    · rw [List.append_nil]
      exact ⟨_, .plain ho hb hs, rfl⟩
    · exact ⟨_, .predicated ho hb hs hq, rfl⟩
  · rintro ⟨i, hi, rfl⟩
    cases hi with
    | plain ho hb hs => exact ⟨_, _, [], ⟨_, ho, hs⟩, .inl ⟨hb, rfl, rfl⟩, (List.append_nil _).symm⟩
    | predicated ho hb hs hq => exact ⟨_, _, _, ⟨_, ho, hs⟩, .inr ⟨hb, _, _, hq, rfl, rfl⟩, rfl⟩

theorem recognises_readItemAfter (index : Nat) (t : UInt32) :
    (readItemAfter index t).Recognises fun ts item => Parses (t :: ts) item := by
  unfold readItemAfter
  simp only [opcodeOf_eq t, endCode, commentCode]
  by_cases he : t.toNat % 0x10000 = 0xffff
  · rw [if_pos he]
    refine (recognises_pure Item.stop).congr fun ts item => ⟨?_, ?_⟩
    · rintro ⟨rfl, rfl⟩
      exact .stop he
    · intro h
      cases h with
      | stop _ => exact ⟨rfl, rfl⟩
      | comment hc => exact absurd (he.symm.trans hc.1) (by decide)
      | instruction hi => exact absurd hi.lt (by omega)
  · rw [if_neg he]
    by_cases hc : t.toNat % 0x10000 = 0xfffe
    · rw [if_pos hc]
      refine ((recognises_skip _).bind fun _ => recognises_pure Item.comment).congr fun ts item => ⟨?_, ?_⟩
      · rintro ⟨_, us, _, hl, ⟨rfl, rfl⟩, rfl⟩
        rw [List.append_nil]
        exact .comment ⟨hc, by simp only [hl, field_eq, Nat.reducePow]⟩
      · intro h
        cases h with
        | stop ht => exact absurd ht he
        | comment hc' =>
          have hl : ts.length = field t 16 15 := by simp only [← hc'.2, field_eq, Nat.reducePow]
          exact ⟨(), ts, [], hl, ⟨rfl, rfl⟩, (List.append_nil ts).symm⟩
        | instruction hi => exact absurd hi.lt (by omega)
    · rw [if_neg hc, ← opcodeOf_eq t]
      refine (recognises_readInstruction index t).congr fun ts item => ⟨?_, ?_⟩
      · rintro ⟨i, hi, rfl⟩
        exact .instruction hi
      · intro h
        cases h with
        | stop ht => exact absurd ht he
        | comment hc' => exact absurd hc'.1 hc
        | instruction hi => exact ⟨_, hi, rfl⟩

/-- **The item reader recognises items.** -/
theorem recognises_readItem : readItem.Recognises Parses := by
  refine recognises_position fun n => (takes_next.bind (recognises_readItemAfter n)).congr fun ts item => ⟨?_, ?_⟩
  · rintro ⟨_, t, us, rfl, h, rfl⟩
    exact h
  · intro h
    cases h with
    | stop ht => exact ⟨_, _, _, rfl, .stop ht, rfl⟩
    | comment hc => exact ⟨_, _, _, rfl, .comment hc, rfl⟩
    | instruction hi =>
      cases hi with
      | plain ho hb hs => exact ⟨_, _, _, rfl, .instruction (.plain ho hb hs), rfl⟩
      | predicated ho hb hs hq => exact ⟨_, _, _, rfl, .instruction (.predicated ho hb hs hq), rfl⟩

theorem readItem_append {ts : List UInt32} {item : Item} (h : Parses ts item) (n : Nat) (rest : List UInt32) :
    readItem ⟨n, ts ++ rest⟩ = .ok (item, ⟨n + ts.length, rest⟩) :=
  (recognises_readItem _ _ _).2 ⟨ts, h, rfl, rfl⟩

/-! ## Streams -/

section
variable {leftOver : Bool} {c c' : Cursor}

theorem readItems_nil {done : Array Instruction} (hc : c.rest = []) :
    readItems leftOver c done = if leftOver then .error (.truncated c.position) else .ok done := by
  unfold readItems
  split
  · rfl
  · rename_i h
    rw [hc] at h
    cases h

theorem readItems_item {done : Array Instruction} {item : Item} (h : readItem c = .ok (item, c')) :
    readItems leftOver c done = match item with
      | .stop => .ok done
      | .comment => readItems leftOver c' done
      | .instruction i => readItems leftOver c' (done.push i) := by
  have hlt := readItem_shorter h
  rw [readItems]
  split
  · rename_i hc
    rw [hc] at hlt
    cases hlt
  · split
    · rename_i h'
      rw [h] at h'
      cases h'
    all_goals
      rename_i h'
      rw [h] at h'
      cases h'
      rfl

theorem stream_of_readItems {done out : Array Instruction} (h : readItems leftOver c done = .ok out) :
    ∃ is, Stream leftOver c.rest is ∧ out.toList = done.toList ++ is := by
  fun_induction readItems leftOver c done with
  | case1 | case3 => cases h
  | case2 c done hc hl =>
    cases h
    rw [hc]
    exact ⟨[], .finished (by simpa using hl), (List.append_nil _).symm⟩
  | case4 c done t rest hc c' hi =>
    cases h
    obtain ⟨ts, hp, hr, -⟩ := (recognises_readItem _ _ _).1 hi
    cases hp with
    | stop ht =>
      rw [hr]
      exact ⟨[], .stopped _ ht, (List.append_nil _).symm⟩
  | case5 c done t rest hc c' hi ih =>
    obtain ⟨is, hs, ho⟩ := ih h
    obtain ⟨ts, hp, hr, -⟩ := (recognises_readItem _ _ _).1 hi
    cases hp with
    | comment ht =>
      rw [hr]
      exact ⟨is, .comment ht hs, ho⟩
  | case6 c done t rest hc i c' hi ih =>
    obtain ⟨is, hs, ho⟩ := ih h
    obtain ⟨ts, hp, hr, -⟩ := (recognises_readItem _ _ _).1 hi
    cases hp with
    | instruction ht =>
      rw [hr]
      exact ⟨i :: is, .instruction ht hs, by rw [ho]; simp⟩

theorem readItems_of_stream {ts : List UInt32} {is : List Instruction} (h : Stream leftOver ts is) (n : Nat)
    (done : Array Instruction) : readItems leftOver ⟨n, ts⟩ done = .ok (done ++ is.toArray) := by
  induction h generalizing n done with
  | finished hl => simp [readItems_nil, hl]
  | stopped rest ht =>
    refine (readItems_item (readItem_append (.stop ht) n rest)).trans ?_
    simp
  | @comment t body rest is hc _ ih => exact (readItems_item (readItem_append (.comment hc) n rest)).trans (ih _ _)
  | @instruction ts i rest is hs _ ih =>
    refine (readItems_item (readItem_append (.instruction hs) n rest)).trans ?_
    simp [ih]

theorem readItems_eq_ok {n : Nat} {ts : List UInt32} {out : Array Instruction} :
    readItems leftOver ⟨n, ts⟩ #[] = .ok out ↔ Stream leftOver ts out.toList := by
  constructor
  · intro h
    obtain ⟨is, hs, ho⟩ := stream_of_readItems h
    rw [ho]
    exact hs
  · intro h
    rw [readItems_of_stream h]
    simp

end

/-! ## Bytecode -/

theorem field_lt (t : UInt32) (low width : Nat) : field t low width < 2 ^ width := by
  rw [field_eq]
  exact Nat.mod_lt _ (Nat.two_pow_pos width)

theorem readVersion_eq_ok {t : UInt32} {v : ShaderVersion} :
    readVersion t = .ok v ↔ t = 0xffff0200 ∧ v = .model20 := by
  have hmodel : (⟨UInt8.ofNat (field t 8 8), UInt8.ofNat (field t 0 8)⟩ : ShaderVersion) = .model20 ↔
      field t 8 8 = 2 ∧ field t 0 8 = 0 := by
    rw [ShaderVersion.model20, ShaderVersion.mk.injEq, ← UInt8.toNat_inj, ← UInt8.toNat_inj,
      UInt8.toNat_ofNat_of_lt' (field_lt t 8 8), UInt8.toNat_ofNat_of_lt' (field_lt t 0 8)]
    rfl
  have ht : t = 0xffff0200 ↔ field t 16 16 = 0xffff ∧ field t 8 8 = 2 ∧ field t 0 8 = 0 := by
    rw [← UInt32.toNat_inj, show (0xffff0200 : UInt32).toNat = 0xffff0200 from rfl]
    simp only [field_eq, Nat.reducePow]
    have hlt := t.toNat_lt
    omega
  rw [ht, ← hmodel, readVersion]
  split
  · rename_i hp
    simp [hp]
  · rename_i hp
    simp only [ne_eq, not_not] at hp
    dsimp only
    split
    · rename_i hv
      simp [hv]
    · rename_i hv
      simp only [ne_eq, not_not] at hv
      rw [hv]
      simp [hp, eq_comm]

theorem decode_eq_ok_iff_readItems {bytes : List UInt8} {p : Program} :
    decode bytes = .ok p ↔ bytes.length ≤ maxLength ∧ bytes ≠ [] ∧
      ∃ ts out, words bytes = 0xffff0200 :: ts ∧ readItems (ragged bytes) ⟨1, ts⟩ #[] = .ok out ∧
        p = .ofInstructions out.toList := by
  constructor
  · intro h
    simp only [decode, bind, Except.bind, pure, Except.pure] at h
    split at h
    · cases h
    · rename_i hl
      split at h
      · cases h
      · rename_i hne
        cases hw : words bytes with
        | nil =>
          rw [hw] at h
          cases h
        | cons version ts =>
          simp only [hw, next] at h
          split at h
          · cases h
          · rename_i hv
            split at h
            · cases h
            · rename_i out hr
              cases h
              obtain ⟨rfl, rfl⟩ := readVersion_eq_ok.1 hv
              exact ⟨Nat.not_lt.1 hl, by simpa using hne, ts, out, rfl, hr, rfl⟩
  · rintro ⟨hl, hne, ts, out, hw, hr, rfl⟩
    have hv : readVersion 0xffff0200 = .ok .model20 := readVersion_eq_ok.2 ⟨rfl, rfl⟩
    simp only [decode, hw, next, hv, hr, Nat.not_lt.2 hl, List.isEmpty_iff, hne, bind, Except.bind, pure, Except.pure,
      if_false, Program.ofInstructions]

/-- **A byte string decodes to a program exactly when it is not empty, not too long, and spells the program's
instructions behind the version token of the model.** -/
theorem decode_eq_ok_iff_items (bytes : List UInt8) (p : Program) :
    decode bytes = .ok p ↔ 0 < bytes.length ∧ bytes.length ≤ 262144 ∧
      ∃ rest, bytes = bytesOfWord 0xffff0200 ++ rest ∧ p.version = .model20 ∧ Items rest p.instructions := by
  rw [decode_eq_ok_iff_readItems]
  constructor
  · rintro ⟨hl, hne, ts, out, hw, hr, rfl⟩
    obtain ⟨rest, rfl, rfl⟩ := exists_bytesOfWord_append hw
    refine ⟨List.length_pos_iff.2 hne, hl, rest, rfl, rfl, ?_⟩
    rw [items_iff_stream, ← ragged_bytesOfWord_append]
    exact readItems_eq_ok.1 hr
  · rintro ⟨h₀, hl, rest, rfl, hv, hi⟩
    obtain ⟨_, is⟩ := p
    obtain rfl := hv
    refine ⟨hl, List.length_pos_iff.1 h₀, words rest, is.toArray, words_bytesOfWord_append _ rest, ?_, rfl⟩
    rw [readItems_eq_ok, ragged_bytesOfWord_append]
    exact items_iff_stream.1 hi

-- an end token inside a comment ends nothing, and behind the end there may be half a token
example : decode (bytesOfWords [0xffff0200, 0x0001fffe, 0x0000ffff, 0x00000000, 0x0000ffff] ++ [0x07]) =
    .ok (.ofInstructions [{ operation := .nop }]) := by cbv

end PixelShader.Bytecode
