import Mathlib
import PixelShader.Proofs.Bytecode.Decode
/-!
# Decoding is compositional

Behind the version token, bytecode is read item by item, and an item does not know what was read before it but for the
index of its first token.  So two cursors at the same tokens, one some tokens further on, give the same items, and the
same faults that many tokens further on (`Reader.Moves`).  Whole items in front of some bytes therefore put their
instructions in front and move the faults, and that is all they do (`decode_whole_append`).
-/
namespace PixelShader.Bytecode

/-! ## Moving a cursor -/

/-- The same fault, `n` tokens further on.  Faults that concern no token stay as they are. -/
def DecodeFault.moved (n : Nat) : DecodeFault → DecodeFault
  | truncated token => truncated (token + n)
  | unknownOpcode opcode token => unknownOpcode opcode (token + n)
  | badRegister token cause => badRegister (token + n) cause
  | registerOutOfRange token register => registerOutOfRange (token + n) register
  | defineTarget token kind => defineTarget (token + n) kind
  | defineMask token mask => defineMask (token + n) mask
  | fault => fault

def Cursor.moved (n : Nat) (c : Cursor) : Cursor := ⟨c.position + n, c.rest⟩

namespace Reader

/-- `r'` does at a cursor `n` tokens further on what `r` does, and ends as much further on. -/
def Moves {α : Type} (n : Nat) (r r' : Reader α) : Prop :=
  ∀ c, (∀ a d, r c = .ok (a, d) → r' (c.moved n) = .ok (a, d.moved n)) ∧
    ∀ fault, r c = .error fault → r' (c.moved n) = .error (fault.moved n)

section
variable {α β : Type} {n : Nat}

theorem moves_pure (a : α) : Moves n (pure a) (pure a) := by
  intro c
  constructor
  · intro b d h
    cases h
    rfl
  · intro fault h
    cases h

theorem moves_throw (fault : DecodeFault) : Moves n (throw fault : Reader α) (throw (fault.moved n)) := by
  intro c
  constructor
  · intro b d h
    cases h
  · intro fault' h
    cases h
    rfl

theorem Moves.bind {r r' : Reader α} {f f' : α → Reader β} (hr : Moves n r r') (hf : ∀ a, Moves n (f a) (f' a)) :
    Moves n (r >>= f) (r' >>= f') := by
  intro c
  have hopen : ∀ (r : Reader α) (f : α → Reader β) (c : Cursor),
      (r >>= f) c = (r c).bind fun p => f p.1 p.2 := fun _ _ _ => rfl
  rw [hopen, hopen]
  cases h : r c with
  | ok p =>
    rw [(hr c).1 p.1 p.2 h]
    exact hf p.1 p.2
  | error fault =>
    rw [(hr c).2 fault h]
    refine ⟨fun b d hb => (by cases hb), fun fault' hf' => ?_⟩
    cases hf'
    rfl

theorem moves_position {f f' : Nat → Reader α} (h : ∀ index, Moves n (f index) (f' (index + n))) :
    Moves n (position >>= f) (position >>= f') := fun c => h c.position c

theorem moves_next : Moves n next next := by
  rintro ⟨index, rest⟩
  cases rest with
  | nil =>
    refine ⟨fun a d h => (by cases h), fun fault h => ?_⟩
    cases h
    rfl
  | cons t rest =>
    refine ⟨fun a d h => ?_, fun fault h => (by cases h)⟩
    cases h
    show Except.ok (t, Cursor.mk (index + n + 1) rest) = .ok (t, ⟨index + 1 + n, rest⟩)
    rw [Nat.add_right_comm]

theorem moves_skip (length : Nat) : Moves n (skip length) (skip length) := by
  rintro ⟨index, rest⟩
  unfold skip Cursor.moved
  cases dropExactly length rest with
  | none =>
    refine ⟨fun a d h => (by cases h), fun fault h => ?_⟩
    cases h
    simp only [DecodeFault.moved, Nat.add_right_comm]
  | some rest' =>
    refine ⟨fun a d h => ?_, fun fault h => (by cases h)⟩
    cases h
    simp only [Nat.add_right_comm]

theorem moves_parameter (read : UInt32 → Except RegisterFault α) (register : α → Register) :
    Moves n (parameter read register) (parameter read register) := by
  refine moves_position fun index => moves_next.bind fun t => ?_
  cases read t with
  | error cause => exact moves_throw _
  | ok a =>
    by_cases h : (register a).inRange = true
    · simp only [h, if_true]
      exact moves_pure a
    · simp only [h, Bool.false_eq_true, if_false]
      exact moves_throw _

theorem moves_destination : Moves n destination destination := moves_parameter _ _

theorem moves_source : Moves n source source := moves_parameter _ _

theorem moves_lane : Moves n lane lane := moves_next.bind fun t => moves_pure (Lane.mk t)

end

end Reader

open Reader

/-! ## Moving the reader of items -/

section
variable {n : Nat}

theorem moves_readDefinition : Moves n readDefinition readDefinition := by
  refine moves_position fun index => moves_destination.bind fun d => moves_lane.bind fun x => moves_lane.bind fun y =>
    moves_lane.bind fun z => moves_lane.bind fun w => ?_
  by_cases hk : d.register.kind ≠ .constant
  · rw [if_pos hk, if_pos hk]
    exact moves_throw _
  · rw [if_neg hk, if_neg hk]
    by_cases hm : (!d.mask.isFull) = true
    · rw [if_pos hm, if_pos hm]
      exact moves_throw _
    · rw [if_neg hm, if_neg hm]
      exact moves_pure _

theorem Shape.moves_read : ∀ s : Shape, Moves n s.read s.read
  | nop => moves_pure _
  | mov | unary _ => moves_destination.bind fun _ => moves_source.bind fun _ => moves_pure _
  | binary _ | texld => moves_destination.bind fun _ => moves_source.bind fun _ => moves_source.bind fun _ =>
      moves_pure _
  | ternary _ => moves_destination.bind fun _ => moves_source.bind fun _ => moves_source.bind fun _ =>
      moves_source.bind fun _ => moves_pure _
  | declaration => moves_next.bind fun _ => moves_destination.bind fun _ => moves_pure _
  | definition => moves_readDefinition

theorem moves_readOperation (opcode index : Nat) :
    Moves n (readOperation opcode index) (readOperation opcode (index + n)) := by
  unfold readOperation
  cases shape? opcode with
  | none => exact moves_throw _
  | some s => exact s.moves_read

theorem moves_readItemAfter (index : Nat) (t : UInt32) :
    Moves n (readItemAfter index t) (readItemAfter (index + n) t) := by
  unfold readItemAfter
  by_cases he : opcodeOf t = endCode
  · rw [if_pos he, if_pos he]
    exact moves_pure _
  · rw [if_neg he, if_neg he]
    by_cases hc : opcodeOf t = commentCode
    · rw [if_pos hc, if_pos hc]
      exact (moves_skip _).bind fun _ => moves_pure _
    · rw [if_neg hc, if_neg hc]
      refine (moves_readOperation _ index).bind fun o => ?_
      by_cases hp : isPredicated t = true
      · rw [if_pos hp]
        exact moves_source.bind fun _ => moves_pure _
      · rw [if_neg hp]
        exact moves_pure _

theorem moves_readItem : Moves n readItem readItem :=
  moves_position fun index => moves_next.bind fun t => moves_readItemAfter index t

end

/-! ## Moving the loop -/

theorem readItems_fault {leftOver : Bool} {c : Cursor} {done : Array Instruction} {fault : DecodeFault}
    (hc : c.rest ≠ []) (h : readItem c = .error fault) : readItems leftOver c done = .error fault := by
  rw [readItems]
  split
  · rename_i hn
    exact absurd hn hc
  · split
    · rename_i h'
      rw [h] at h'
      cases h'
      rfl
    all_goals
      rename_i h'
      rw [h] at h'
      cases h'

theorem readItems_moved (leftOver : Bool) (n : Nat) (before : Array Instruction) (c : Cursor) (done : Array Instruction) :
    readItems leftOver (c.moved n) (before ++ done) =
      ((readItems leftOver c done).map (before ++ ·)).mapError (DecodeFault.moved n) := by
  fun_induction readItems leftOver c done with
  | case1 c done hc hl =>
    rw [readItems_nil (c := c.moved n) hc, if_pos hl]
    rfl
  | case2 c done hc hl =>
    rw [readItems_nil (c := c.moved n) hc, if_neg hl]
    rfl
  | case3 c done t rest hc fault hi =>
    have hne : (c.moved n).rest ≠ [] := by
      show c.rest ≠ []
      rw [hc]
      exact List.cons_ne_nil t rest
    rw [readItems_fault hne ((moves_readItem c).2 fault hi)]
    rfl
  | case4 c done t rest hc c' hi =>
    rw [readItems_item ((moves_readItem c).1 _ _ hi)]
    rfl
  | case5 c done t rest hc c' hi ih => rw [readItems_item ((moves_readItem c).1 _ _ hi), ← ih]
  | case6 c done t rest hc i c' hi ih =>
    rw [readItems_item ((moves_readItem c).1 _ _ hi), ← ih, Array.append_push]

/-! ## Whole items -/

/-- **Bytes that are items from the first to the last, none of them the end, and the instructions that they spell.** -/
inductive WholeItems : List UInt8 → List Instruction → Prop
  | nil : WholeItems [] []
  | comment {t body rest is} : IsComment t body.length → WholeItems rest is →
      WholeItems (bytesOfWords (t :: body) ++ rest) is
  | instruction {ts i rest is} : Spells ts i → WholeItems rest is → WholeItems (bytesOfWords ts ++ rest) (i :: is)

theorem WholeItems.append {a b : List UInt8} {is js : List Instruction} (ha : WholeItems a is) (hb : WholeItems b js) :
    WholeItems (a ++ b) (is ++ js) := by
  induction ha with
  | nil => exact hb
  | comment hc _ ih =>
    rw [List.append_assoc]
    exact .comment hc ih
  | instruction hs _ ih =>
    rw [List.append_assoc]
    exact .instruction hs ih

theorem WholeItems.append_items {a b : List UInt8} {is js : List Instruction} (ha : WholeItems a is) (hb : Items b js) :
    Items (a ++ b) (is ++ js) := by
  induction ha with
  | nil => exact hb
  | comment hc _ ih =>
    rw [List.append_assoc]
    exact .comment hc ih
  | instruction hs _ ih =>
    rw [List.append_assoc]
    exact .instruction hs ih

theorem wholeItems_comment {t : UInt32} {body : List UInt32} (h : IsComment t body.length) :
    WholeItems (bytesOfWords (t :: body)) [] := by
  rw [← List.append_nil (bytesOfWords (t :: body))]
  exact .comment h .nil

theorem items_iff_wholeItems {bytes : List UInt8} {is : List Instruction} :
    Items bytes is ↔ WholeItems bytes is ∨
      ∃ items t rest, bytes = items ++ (bytesOfWord t ++ rest) ∧ WholeItems items is ∧ IsEnd t := by
  constructor
  · intro h
    induction h with
    | finished => exact .inl .nil
    | stopped rest ht => exact .inr ⟨[], _, rest, rfl, .nil, ht⟩
    | comment hc _ ih =>
      rcases ih with ih | ⟨items, t, rest, rfl, hi, ht⟩
      · exact .inl (.comment hc ih)
      · exact .inr ⟨_, t, rest, (List.append_assoc ..).symm, .comment hc hi, ht⟩
    | instruction hs _ ih =>
      rcases ih with ih | ⟨items, t, rest, rfl, hi, ht⟩
      · exact .inl (.instruction hs ih)
      · exact .inr ⟨_, t, rest, (List.append_assoc ..).symm, .instruction hs hi, ht⟩
  · rintro (h | ⟨items, t, rest, rfl, hi, ht⟩)
    · rw [← List.append_nil bytes, ← List.append_nil is]
      exact h.append_items .finished
    · rw [← List.append_nil is]
      exact hi.append_items (.stopped rest ht)

theorem WholeItems.readItems_append {items : List UInt8} {is : List Instruction} (h : WholeItems items is) :
    ∃ ts, items = bytesOfWords ts ∧ ∀ leftOver n rest done,
      readItems leftOver ⟨n, ts ++ rest⟩ done = readItems leftOver ⟨n + ts.length, rest⟩ (done ++ is.toArray) := by
  induction h with
  | nil => exact ⟨[], rfl, fun _ _ _ _ => by simp⟩
  | @comment t body rest is hc _ ih =>
    obtain ⟨ts, rfl, ih⟩ := ih
    refine ⟨(t :: body) ++ ts, by simp [bytesOfWords], fun leftOver n rest done => ?_⟩
    rw [List.append_assoc, readItems_item (readItem_append (.comment hc) n _), List.length_append, ← Nat.add_assoc]
    exact ih leftOver _ rest done
  | @instruction us i rest is hs _ ih =>
    obtain ⟨ts, rfl, ih⟩ := ih
    refine ⟨us ++ ts, by simp [bytesOfWords], fun leftOver n rest done => ?_⟩
    rw [List.append_assoc, readItems_item (readItem_append (.instruction hs) n _), List.length_append, ← Nat.add_assoc]
    simp only [ih]
    simp

/-! ## Bytecode -/

def versionBytes : List UInt8 := bytesOfWord 0xffff0200

theorem decode_version_append {bytes : List UInt8} (h : 4 + bytes.length ≤ maxLength) :
    decode (versionBytes ++ bytes) =
      (readItems (ragged bytes) ⟨1, words bytes⟩ #[]).map fun out => Program.ofInstructions out.toList := by
  have hl : ¬ maxLength < (versionBytes ++ bytes).length := by
    rw [List.length_append]
    exact Nat.not_lt.2 h
  have hv : readVersion 0xffff0200 = .ok .model20 := readVersion_eq_ok.2 ⟨rfl, rfl⟩
  have hw : words (versionBytes ++ bytes) = 0xffff0200 :: words bytes := words_bytesOfWord_append _ bytes
  have hr : ragged (versionBytes ++ bytes) = ragged bytes := ragged_bytesOfWord_append _ bytes
  have he : (versionBytes ++ bytes).isEmpty = false := rfl
  simp only [decode, hl, he, hw, hr, next, hv, bind, Except.bind, pure, Except.pure, if_false, Bool.false_eq_true]
  cases readItems (ragged bytes) ⟨1, words bytes⟩ #[] <;> rfl

/-- **Whole items before other bytes put their instructions before those of the others, and move their faults.** -/
theorem decode_whole_append {items : List UInt8} {is : List Instruction} (h : WholeItems items is) {bytes : List UInt8}
    (hl : 4 + (items.length + bytes.length) ≤ maxLength) :
    decode (versionBytes ++ (items ++ bytes)) =
      ((decode (versionBytes ++ bytes)).map fun q => Program.ofInstructions (is ++ q.instructions)).mapError
        (DecodeFault.moved (items.length / 4)) := by
  obtain ⟨ts, rfl, hread⟩ := h.readItems_append
  have hts : (bytesOfWords ts).length / 4 = ts.length := by rw [length_bytesOfWords]; omega
  rw [hts, decode_version_append (by rw [List.length_append]; exact hl), decode_version_append (by omega),
    ragged_bytesOfWords_append, words_bytesOfWords_append, hread]
  have hmoved := readItems_moved (ragged bytes) ts.length is.toArray ⟨1, words bytes⟩ #[]
  rw [Array.append_empty] at hmoved
  rw [Array.empty_append]
  show (readItems (ragged bytes) (Cursor.moved ts.length ⟨1, words bytes⟩) is.toArray).map _ = _
  rw [hmoved]
  cases readItems (ragged bytes) ⟨1, words bytes⟩ #[] with
  | error fault => rfl
  | ok out => simp [Except.map, Except.mapError, Program.ofInstructions]

theorem decode_version_eq_ok {bytes : List UInt8} (hl : 4 + bytes.length ≤ maxLength) {p : Program} :
    decode (versionBytes ++ bytes) = .ok p ↔ p.version = .model20 ∧ Items bytes p.instructions := by
  rw [decode_version_append hl, items_iff_stream]
  constructor
  · intro h
    cases hr : readItems (ragged bytes) ⟨1, words bytes⟩ #[] with
    | error fault =>
      rw [hr] at h
      cases h
    | ok out =>
      rw [hr] at h
      cases h
      exact ⟨rfl, readItems_eq_ok.1 hr⟩
  · rintro ⟨hv, h⟩
    obtain ⟨_, is⟩ := p
    obtain rfl := hv
    have hr : readItems (ragged bytes) ⟨1, words bytes⟩ #[] = .ok is.toArray := readItems_eq_ok.2 h
    rw [hr]
    rfl

/-- **Decoding is compositional.**  What the bytes behind a version token decode to they spell with whole items up to
their end, or up to an end token.  Whole items before other bytes put their instructions before those of the others, or
move the fault of the others by as many tokens as they have.  So a comment may be put between any two items, and what
stands behind an end token does not matter. -/
theorem decode_concatenation (a b : List UInt8) (p : Program) (hl : 4 + a.length + b.length ≤ 262144) :
    (decode (versionBytes ++ a) = .ok p ↔ p.version = .model20 ∧ (WholeItems a p.instructions ∨
      ∃ items t rest, a = items ++ (bytesOfWord t ++ rest) ∧ WholeItems items p.instructions ∧ IsEnd t)) ∧
    (WholeItems a p.instructions →
      (∀ q, decode (versionBytes ++ b) = .ok q →
        decode (versionBytes ++ a ++ b) = .ok (.ofInstructions (p.instructions ++ q.instructions))) ∧
      (∀ fault, decode (versionBytes ++ b) = .error fault →
        decode (versionBytes ++ a ++ b) = .error (fault.moved (a.length / 4))) ∧
      (∀ t body r, IsComment t body.length → 4 + a.length + 4 * (body.length + 1) + b.length ≤ 262144 →
        (decode (versionBytes ++ a ++ bytesOfWords (t :: body) ++ b) = .ok r ↔
          decode (versionBytes ++ a ++ b) = .ok r)) ∧
      ∀ t, IsEnd t → 4 + a.length + 4 + b.length ≤ 262144 →
        decode (versionBytes ++ a ++ bytesOfWord t ++ b) = .ok (.ofInstructions p.instructions)) := by
  refine ⟨?_, fun ha => ⟨fun q hq => ?_, fun fault hf => ?_, fun t body r hc hfit => ?_, fun t ht hfit => ?_⟩⟩
  · rw [decode_version_eq_ok (Nat.le_trans (Nat.le_add_right _ _) hl), items_iff_wholeItems]
  · rw [List.append_assoc, decode_whole_append ha (by rw [← Nat.add_assoc]; exact hl), hq]
    rfl
  · rw [List.append_assoc, decode_whole_append ha (by rw [← Nat.add_assoc]; exact hl), hf]
    rfl
  · -- with the comment or without, the items before `b` have the same instructions
    have hac : WholeItems (a ++ bytesOfWords (t :: body)) p.instructions := by
      rw [← List.append_nil p.instructions]
      exact ha.append (wholeItems_comment hc)
    have hlen : (bytesOfWords (t :: body)).length = 4 * (body.length + 1) := length_bytesOfWords _
    rw [List.append_assoc _ a (bytesOfWords (t :: body)), List.append_assoc _ _ b, List.append_assoc _ a b,
      decode_whole_append hac (by rw [List.length_append, hlen]; exact Nat.le_trans (by omega) hfit),
      decode_whole_append ha (by rw [← Nat.add_assoc]; exact hl)]
    cases decode (versionBytes ++ b) with
    | ok q => exact Iff.rfl
    | error fault => exact ⟨fun h => (by cases h), fun h => (by cases h)⟩
  · have hend : Items (a ++ (bytesOfWord t ++ b)) p.instructions :=
      items_iff_wholeItems.2 (.inr ⟨a, t, b, rfl, ha, ht⟩)
    have hlen : (a ++ (bytesOfWord t ++ b)).length = a.length + (4 + b.length) := by
      rw [List.length_append, List.length_append]
      rfl
    rw [List.append_assoc, List.append_assoc]
    exact (decode_version_eq_ok (by rw [hlen]; exact Nat.le_trans (by omega) hfit)).2 ⟨rfl, hend⟩

/-- A comment of one token and a `nop`, three tokens in all, before an unknown opcode and before another `nop`. -/
theorem decode_behind_comment :
    let a := bytesOfWords [0x0001fffe, 0x0000ffff, 0x00000000]
    let nop : Instruction := { operation := .nop }
    WholeItems a [nop] ∧
      decode (versionBytes ++ a ++ bytesOfWords [0x00000020]) = .error (.unknownOpcode 0x20 4) ∧
      decode (versionBytes ++ a ++ bytesOfWords [0x00000000]) = .ok (.ofInstructions [nop, nop]) := by
  intro a nop
  have hnop : Spells [0x00000000] nop := .plain (.inl rfl) (by decide) .nop
  have hcomment : IsComment 0x0001fffe [(0x0000ffff : UInt32)].length := ⟨by decide, by decide⟩
  have ha : WholeItems a [nop] := .comment hcomment (.instruction hnop .nil)
  have hlen : a.length = 12 := rfl
  have hbad : decode (versionBytes ++ bytesOfWords [0x00000020]) = .error (.unknownOpcode 0x20 1) := by cbv
  have hgood : decode (versionBytes ++ bytesOfWords [0x00000000]) = .ok (.ofInstructions [nop]) := by cbv
  have hfault := ((decode_concatenation a (bytesOfWords [0x00000020]) (.ofInstructions [nop]) (by decide)).2 ha).2.1 _ hbad
  rw [hlen] at hfault
  exact ⟨ha, hfault, ((decode_concatenation a (bytesOfWords [0x00000000]) (.ofInstructions [nop]) (by decide)).2 ha).1 _ hgood⟩

end PixelShader.Bytecode
