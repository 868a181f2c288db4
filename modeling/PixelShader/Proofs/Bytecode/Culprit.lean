import Mathlib
import PixelShader.Proofs.Bytecode.Concatenation
/-!
# A fault names the token that is wrong

A fault that comes with the index of a token is about that token: the token is there, the items before its own are
whole, and it cannot stand where it stands (`Culprit`).  Only a stream that is cut off has no such token; its index is
that of the first token that is missing.  The readers of the decoder are gone through for what they blame
(`Reader.Blames`), as they were for what they recognise.
-/
namespace PixelShader.Bytecode

def DecodeFault.token? : DecodeFault → Option Nat
  | tooLarge _ | empty | notPixelShader _ | unsupportedVersion _ _ => none
  | truncated token | unknownOpcode _ token | badRegister token _ | registerOutOfRange token _ | defineTarget token _
  | defineMask token _ => some token

/-! ## Roles

What the tokens behind an opcode are read as, place by place. -/

inductive Role where
  | destination
  | source
  | free

def Shape.roles : Shape → List Role
  | nop => []
  | mov | unary _ => [.destination, .source]
  | binary _ | texld => [.destination, .source, .source]
  | ternary _ => [.destination, .source, .source, .source]
  | declaration => [.free, .destination]
  | definition => [.destination, .free, .free, .free, .free]

def Shape.rolesBehind (s : Shape) (t : UInt32) : List Role := s.roles ++ if t.toNat.testBit 28 then [.source] else []

/-- The tokens are an opcode token and some of those behind it, and the next token has the role. -/
inductive Expects : List UInt32 → Role → Prop
  | behind {t ts role} {s : Shape} : s.HasOpcode (t.toNat % 0x10000) → (s.rolesBehind t)[ts.length]? = some role →
      Expects (t :: ts) role

/-- What is wrong with a token in its role. -/
inductive Role.Refuses (t : UInt32) : Role → DecodeFault → Prop
  | source {index cause} : readSource t = .error cause → Refuses t .source (.badRegister index cause)
  | destination {index cause} : readRegister t = .error cause → Refuses t .destination (.badRegister index cause)
  | range {role index r} : role ≠ .free → readRegister t = .ok r → 32 ≤ r.number.toNat →
      Refuses t role (.registerOutOfRange index r)

/-- **Behind the tokens of an item up to it, a token that the fault is right about.** -/
inductive Culprit : List UInt32 → UInt32 → DecodeFault → Prop
  | opcode {t index} : (∀ s : Shape, ¬ s.HasOpcode (t.toNat % 0x10000)) → t.toNat % 0x10000 ≠ 0xfffe →
      t.toNat % 0x10000 ≠ 0xffff → Culprit [] t (.unknownOpcode (t.toNat % 0x10000) index)
  | operand {head t fault} {role : Role} : Expects head role → role.Refuses t fault → Culprit head t fault
  | target {o t d index} : o.toNat % 0x10000 = 0x51 → IsDestination t d → d.register.kind ≠ .constant →
      Culprit [o] t (.defineTarget index d.register.kind)
  | mask {o t d index} : o.toNat % 0x10000 = 0x51 → IsDestination t d → d.register.kind = .constant → d.mask ≠ .full →
      Culprit [o] t (.defineMask index d.mask)

/-! ## What a reader blames -/

namespace Reader

/-- Where the reader fails, the tokens end too early, or `P` holds. -/
def Blames {α : Type} (r : Reader α) (P : Cursor → DecodeFault → Prop) : Prop :=
  ∀ (c : Cursor) (fault : DecodeFault), r c = .error fault →
    fault = .truncated (c.position + c.rest.length) ∨ P c fault

section
variable {α β : Type} {P Q : Cursor → DecodeFault → Prop}

theorem Blames.mono {r : Reader α} (h : r.Blames P) (hPQ : ∀ c fault, P c fault → Q c fault) : r.Blames Q :=
  fun c fault hf => (h c fault hf).imp_right (hPQ c fault)

theorem blames_pure (a : α) : Blames (pure a : Reader α) P := fun c fault h => by cases h

theorem blames_throw (fault : DecodeFault) : Blames (throw fault : Reader α) fun _ f => f = fault := fun c f h => by
  cases h
  exact .inr rfl

theorem Blames.bind {r : Reader α} {f : α → Reader β} {R : List UInt32 → α → Prop} {S : α → Cursor → DecodeFault → Prop}
    (hr : r.Blames P) (hR : r.Recognises R) (hf : ∀ a, (f a).Blames (S a)) :
    Blames (r >>= f) fun c fault => P c fault ∨
      ∃ a ts d, R ts a ∧ c.rest = ts ++ d.rest ∧ d.position = c.position + ts.length ∧ S a d fault := by
  intro c fault h
  cases hc : r c with
  | error e =>
    have he : (r >>= f) c = .error e := by simp only [Bind.bind, StateT.bind, hc, Except.bind]
    rw [he] at h
    cases h
    exact (hr c _ hc).imp_right .inl
  | ok p =>
    obtain ⟨a, d⟩ := p
    have he : (r >>= f) c = f a d := by simp only [Bind.bind, StateT.bind, hc, Except.bind]
    rw [he] at h
    obtain ⟨ts, hts, hrest, hpos⟩ := (hR c d a).1 hc
    refine (hf a d fault h).imp (fun ht => ?_) fun hs => .inr ⟨a, ts, d, hts, hrest, hpos, hs⟩
    rw [ht, hrest, hpos, List.length_append, Nat.add_assoc]

theorem blames_position {f : Nat → Reader α} {S : Nat → Cursor → DecodeFault → Prop} (h : ∀ n, (f n).Blames (S n)) :
    Blames (position >>= f) fun c fault => S c.position c fault := fun c fault hf => h c.position c fault hf

theorem blames_next : next.Blames fun _ _ => False := by
  rintro ⟨n, rest⟩ fault h
  cases rest with
  | nil =>
    cases h
    exact .inl rfl
  | cons t rest => cases h

theorem blames_skip (n : Nat) : (skip n).Blames fun _ _ => False := by
  intro c fault h
  unfold skip at h
  split at h
  · cases h
    exact .inl rfl
  · cases h

theorem blames_lane : lane.Blames fun _ _ => False := by
  refine (blames_next.bind takes_next fun t => blames_pure (P := fun _ _ => False) (Lane.mk t)).mono ?_
  rintro c fault (h | ⟨_, _, _, -, -, -, h⟩) <;> exact h

/-- The fault is about one of the next tokens, and right if `P` holds of that one and those before it. -/
def Points (P : List UInt32 → UInt32 → DecodeFault → Prop) (c : Cursor) (fault : DecodeFault) : Prop :=
  ∃ head t rest, c.rest = head ++ t :: rest ∧ P head t fault ∧ fault.token? = some (c.position + head.length)

theorem Points.behind {P Q : List UInt32 → UInt32 → DecodeFault → Prop} {c d : Cursor} {ts : List UInt32}
    {fault : DecodeFault} (h : Points P d fault) (hrest : c.rest = ts ++ d.rest)
    (hpos : d.position = c.position + ts.length) (hPQ : ∀ head t, P head t fault → Q (ts ++ head) t fault) :
    Points Q c fault := by
  obtain ⟨head, t, rest, hd, ht, htoken⟩ := h
  refine ⟨ts ++ head, t, rest, ?_, hPQ head t ht, ?_⟩
  · rw [hrest, hd, List.append_assoc]
  · rw [htoken, hpos, List.length_append, Nat.add_assoc]

theorem Points.mono {P Q : List UInt32 → UInt32 → DecodeFault → Prop} {c : Cursor} {fault : DecodeFault}
    (h : Points P c fault) (hPQ : ∀ head t, P head t fault → Q head t fault) : Points Q c fault :=
  h.behind (List.nil_append _).symm rfl hPQ

def Spoils (roles : List Role) : Cursor → DecodeFault → Prop :=
  Points fun head t fault => ∃ role, roles[head.length]? = some role ∧ role.Refuses t fault

theorem blames_parameter {read : UInt32 → Except RegisterFault α} {register : α → Register} {role : Role}
    (hrole : role ≠ .free) (hbad : ∀ t cause index, read t = .error cause → role.Refuses t (.badRegister index cause))
    (hreg : ∀ t a, read t = .ok a → readRegister t = .ok (register a)) :
    (parameter read register).Blames (Spoils [role]) := by
  refine (blames_position fun n => blames_next.bind takes_next
    (S := fun t _ fault => role.Refuses t fault ∧ fault.token? = some n) fun t => ?_).mono ?_
  · cases ht : read t with
    | error cause =>
      refine (blames_throw _).mono fun c fault h => ?_
      subst h
      exact ⟨hbad t cause n ht, rfl⟩
    | ok a =>
      by_cases hin : (register a).inRange = true
      · simp only [hin, if_true]
        exact blames_pure a
      · simp only [hin, Bool.false_eq_true, if_false]
        refine (blames_throw _).mono fun c fault h => ?_
        subst h
        have hn : 32 ≤ (register a).number.toNat := by simpa [Register.inRange] using hin
        exact ⟨.range hrole (hreg t a ht) hn, rfl⟩
  · rintro c fault (h | ⟨t, _, d, ⟨_, rfl, rfl⟩, hrest, -, h⟩)
    · exact h.elim
    · exact ⟨[], t, d.rest, hrest, ⟨role, rfl, h.1⟩, h.2⟩

theorem readRegister_eq_map (t : UInt32) : readRegister t = (readDestination t).map Destination.register := by
  unfold readDestination
  cases readRegister t <;> rfl

theorem readRegister_of_readSource {t : UInt32} {s : Source} (h : readSource t = .ok s) :
    readRegister t = .ok s.register := by
  unfold readSource at h
  cases hr : readRegister t with
  | error cause =>
    rw [hr] at h
    cases h
  | ok r =>
    cases hm : modifierOfCode (field t 24 4) with
    | error cause =>
      rw [hr, hm] at h
      cases h
    | ok m =>
      rw [hr, hm] at h
      cases h
      rfl

theorem blames_destination : destination.Blames (Spoils [.destination]) := by
  refine blames_parameter (fun h => by cases h) (fun t cause index h => .destination ?_) fun t d h => ?_
  · rw [readRegister_eq_map, h]
    rfl
  · rw [readRegister_eq_map, h]
    rfl

theorem blames_source : source.Blames (Spoils [.source]) :=
  blames_parameter (fun h => by cases h) (fun _ _ _ h => .source h) fun _ _ => readRegister_of_readSource

theorem blames_free : next.Blames (Spoils [.free]) := blames_next.mono fun _ _ h => h.elim

theorem Blames.cons {r : Reader α} {f : α → Reader β} {R : UInt32 → α → Prop} {role : Role} {roles : List Role}
    (hr : r.Blames (Spoils [role])) (hR : r.Takes R) (hf : ∀ a, (f a).Blames (Spoils roles)) :
    Blames (r >>= f) (Spoils (role :: roles)) := by
  refine (hr.bind hR hf).mono ?_
  rintro c fault (h | ⟨a, _, d, ⟨t, -, rfl⟩, hrest, hpos, h⟩)
  · refine h.mono fun head t => ?_
    rintro ⟨role', hrole, ht⟩
    cases head with
    | nil => exact ⟨role', hrole, ht⟩
    | cons => cases hrole
  · exact h.behind hrest hpos fun head t => id

theorem Blames.lane {f : Lane → Reader β} {S : DecodeFault → Prop} (hf : ∀ a, (f a).Blames fun _ fault => S fault) :
    Blames (Reader.lane >>= f) fun _ fault => S fault := by
  refine (blames_lane.bind takes_lane hf).mono ?_
  rintro c fault (h | ⟨a, ts, d, -, -, -, h⟩)
  · exact h.elim
  · exact h

end
end Reader

open Reader

/-! ## Items -/

def Accuses (before : List UInt32) : Cursor → DecodeFault → Prop := Points fun head => Culprit (before ++ head)

section
variable {o : UInt32}

theorem accuses_of_spoils {s : Shape} (ho : s.HasOpcode (o.toNat % 0x10000)) {c : Cursor} {fault : DecodeFault}
    (h : Spoils s.roles c fault) : Accuses [o] c fault := by
  refine h.mono fun head t => ?_
  rintro ⟨role, hrole, ht⟩
  have hlt : head.length < s.roles.length := (List.getElem?_eq_some_iff.1 hrole).1
  have hb : (s.rolesBehind o)[head.length]? = some role := by
    rw [Shape.rolesBehind, List.getElem?_append_left hlt, hrole]
  exact .operand (.behind ho hb) ht

theorem blames_readDefinition (ho : o.toNat % 0x10000 = 0x51) : readDefinition.Blames (Accuses [o]) := by
  refine (blames_position fun n => blames_destination.bind takes_destination
    (S := fun d _ fault => ∀ t, IsDestination t d → Culprit [o] t fault ∧ fault.token? = some n) fun d =>
      .lane fun x => .lane fun y => .lane fun z => .lane fun w => ?_).mono ?_
  · by_cases hk : d.register.kind ≠ .constant
    · rw [if_pos hk]
      refine (blames_throw _).mono fun c fault h t ht => ?_
      subst h
      exact ⟨.target ho ht hk, rfl⟩
    · rw [if_neg hk]
      by_cases hm : d.mask = .full
      · rw [if_neg (by simp [WriteMask.isFull, hm])]
        exact blames_pure _
      · rw [if_pos (by simp [WriteMask.isFull, hm])]
        refine (blames_throw _).mono fun c fault h t ht => ?_
        subst h
        exact ⟨.mask ho ht (not_not.1 hk) hm, rfl⟩
  · rintro c fault (h | ⟨d, _, c', ⟨t, ht, rfl⟩, hrest, -, h⟩)
    · refine accuses_of_spoils (s := .definition) (.inl ho) (h.mono fun head t => ?_)
      rintro ⟨role, hrole, ht⟩
      cases head with
      | nil => exact ⟨role, hrole, ht⟩
      | cons => cases hrole
    · exact ⟨[], t, c'.rest, hrest, h t ht⟩

theorem Shape.blames_read {s : Shape} (ho : s.HasOpcode (o.toNat % 0x10000)) : s.read.Blames (Accuses [o]) := by
  cases s with
  | nop => exact blames_pure _
  | mov =>
    exact (blames_destination.cons takes_destination fun d => blames_source.cons takes_source fun a =>
      blames_pure (Operation.mov d a)).mono fun c fault => accuses_of_spoils ho
  | unary op =>
    exact (blames_destination.cons takes_destination fun d => blames_source.cons takes_source fun a =>
      blames_pure (Operation.unary op d a)).mono fun c fault => accuses_of_spoils ho
  | binary op =>
    exact (blames_destination.cons takes_destination fun d => blames_source.cons takes_source fun a =>
      blames_source.cons takes_source fun b => blames_pure (Operation.binary op d a b)).mono
        fun c fault => accuses_of_spoils ho
  | ternary op =>
    exact (blames_destination.cons takes_destination fun d => blames_source.cons takes_source fun a =>
      blames_source.cons takes_source fun b => blames_source.cons takes_source fun c =>
        blames_pure (Operation.ternary op d a b c)).mono fun c fault => accuses_of_spoils ho
  | declaration =>
    exact (blames_free.cons takes_next fun t => blames_destination.cons takes_destination fun d =>
      blames_pure (Operation.declare (readTextureKind t) d)).mono fun c fault => accuses_of_spoils ho
  | texld =>
    exact (blames_destination.cons takes_destination fun d => blames_source.cons takes_source fun a =>
      blames_source.cons takes_source fun b => blames_pure (Operation.texld d a b)).mono
        fun c fault => accuses_of_spoils ho
  | definition =>
    refine blames_readDefinition ?_
    rcases ho with ho | ⟨-, ho⟩
    · exact ho
    · cases ho

end

theorem Operands.length_roles {s : Shape} {ts : List UInt32} {o : Operation} (h : Operands s ts o) :
    ts.length = s.roles.length := by
  cases h <;> rfl

theorem blames_readOperation {t : UInt32} (index : Nat) (hc : t.toNat % 0x10000 ≠ 0xfffe)
    (he : t.toNat % 0x10000 ≠ 0xffff) : (readOperation (t.toNat % 0x10000) index).Blames fun c fault =>
      Accuses [t] c fault ∨ Culprit [] t fault ∧ fault.token? = some index := by
  unfold readOperation
  cases hs : shape? (t.toNat % 0x10000) with
  | some s => exact (Shape.blames_read (shape?_eq_some.1 hs)).mono fun c fault => .inl
  | none =>
    refine (blames_throw _).mono fun c fault h => ?_
    subst h
    refine .inr ⟨.opcode (fun s ho => ?_) hc he, rfl⟩
    rw [shape?_eq_some.2 ho] at hs
    cases hs

theorem accuses_of_spoils_predicate {t : UInt32} {s : Shape} {ts : List UInt32} {o : Operation}
    (ho : s.HasOpcode (t.toNat % 0x10000)) (hops : Operands s ts o) (hb : t.toNat.testBit 28 = true) {c d : Cursor}
    {fault : DecodeFault} (hrest : c.rest = ts ++ d.rest) (hpos : d.position = c.position + ts.length)
    (h : Spoils [.source] d fault) : Accuses [t] c fault := by
  refine h.behind hrest hpos fun head u => ?_
  rintro ⟨role, hrole, hu⟩
  have hplace : (s.rolesBehind t)[(ts ++ head).length]? = some role := by
    rw [Shape.rolesBehind, hb, List.length_append, hops.length_roles,
      List.getElem?_append_right (Nat.le_add_right _ _), Nat.add_sub_cancel_left]
    exact hrole
  exact .operand (.behind ho hplace) hu

theorem blames_readItemAfter (index : Nat) (t : UInt32) : (readItemAfter index t).Blames fun c fault =>
    Accuses [t] c fault ∨ Culprit [] t fault ∧ fault.token? = some index := by
  unfold readItemAfter
  rw [opcodeOf_eq, isPredicated_eq]
  by_cases he : t.toNat % 0x10000 = endCode
  · rw [if_pos he]
    exact blames_pure _
  · rw [if_neg he]
    by_cases hc : t.toNat % 0x10000 = commentCode
    · rw [if_pos hc]
      refine ((blames_skip _).bind (recognises_skip _) fun _ => blames_pure (P := fun _ _ => False) _).mono ?_
      rintro c fault (h | ⟨_, _, _, -, -, -, h⟩) <;> exact h.elim
    · rw [if_neg hc]
      refine ((blames_readOperation index hc he).bind (recognises_readOperation _ index)
        (S := fun _ d fault => t.toNat.testBit 28 = true ∧ Spoils [.source] d fault) fun o => ?_).mono ?_
      · by_cases hb : t.toNat.testBit 28 = true
        · rw [if_pos hb]
          exact (blames_source.cons takes_source fun q => blames_pure _).mono fun c fault h => ⟨hb, h⟩
        · rw [if_neg hb]
          exact blames_pure _
      · rintro c fault (h | ⟨o, ts, d, ⟨s, ho, hops⟩, hrest, hpos, hb, h⟩)
        · exact h
        · exact .inl (accuses_of_spoils_predicate ho hops hb hrest hpos h)

theorem blames_readItem : readItem.Blames (Accuses []) := by
  refine (blames_position fun n => blames_next.bind takes_next (blames_readItemAfter n)).mono ?_
  rintro c fault (h | ⟨t, _, d, ⟨_, rfl, rfl⟩, hrest, hpos, h | ⟨ht, htoken⟩⟩)
  · exact h.elim
  · exact h.behind hrest hpos fun head u => id
  · exact ⟨[], t, d.rest, hrest, ht, htoken⟩

/-! ## Streams -/

/-- From the cursor on, the tokens end too early, or the culprit is behind whole items. -/
def FailsBehindItems (c : Cursor) (fault : DecodeFault) : Prop :=
  fault = .truncated (c.position + c.rest.length) ∨
    ∃ ts is d, WholeItems (bytesOfWords ts) is ∧ c.rest = ts ++ d.rest ∧ d.position = c.position + ts.length ∧
      Accuses [] d fault

theorem FailsBehindItems.cons {c c' : Cursor} {us : List UInt32} {fault : DecodeFault} (h : FailsBehindItems c' fault)
    (hr : c.rest = us ++ c'.rest) (hpos : c'.position = c.position + us.length)
    (hus : ∀ ts is, WholeItems (bytesOfWords ts) is → ∃ js, WholeItems (bytesOfWords (us ++ ts)) js) :
    FailsBehindItems c fault := by
  rcases h with h | ⟨ts, is, d, hw, hd, hdpos, ha⟩
  · left
    rw [h, hr, hpos, List.length_append, Nat.add_assoc]
  · obtain ⟨js, hj⟩ := hus ts is hw
    refine .inr ⟨us ++ ts, js, d, hj, ?_, ?_, ha⟩
    · rw [hr, hd, List.append_assoc]
    · rw [hdpos, hpos, List.length_append, Nat.add_assoc]

theorem failsBehindItems_of_readItems {leftOver : Bool} {c : Cursor} {done : Array Instruction} {fault : DecodeFault}
    (h : readItems leftOver c done = .error fault) : FailsBehindItems c fault := by
  fun_induction readItems leftOver c done with
  | case1 c done hc hl =>
    cases h
    rw [FailsBehindItems, hc]
    exact .inl rfl
  | case2 | case4 => cases h
  | case3 c done t rest hc fault' hi =>
    cases h
    exact (blames_readItem c _ hi).imp_right fun ha => ⟨[], [], c, .nil, rfl, rfl, ha⟩
  | case5 c done t rest hc c' hi ih =>
    obtain ⟨us, hp, hr, hpos⟩ := (recognises_readItem _ _ _).1 hi
    refine (ih h).cons hr hpos fun ts is hw => ?_
    cases hp with
    | comment ht =>
      rw [bytesOfWords_append]
      exact ⟨is, .comment ht hw⟩
  | case6 c done t rest hc i c' hi ih =>
    obtain ⟨us, hp, hr, hpos⟩ := (recognises_readItem _ _ _).1 hi
    refine (ih h).cons hr hpos fun ts is hw => ?_
    cases hp with
    | instruction hs =>
      rw [bytesOfWords_append]
      exact ⟨i :: is, .instruction hs hw⟩

/-! ## Bytecode -/

theorem token?_of_readVersion {t : UInt32} {fault : DecodeFault} (h : readVersion t = .error fault) :
    fault.token? = none := by
  unfold readVersion at h
  split at h
  · cases h
    rfl
  · dsimp only at h
    split at h
    · cases h
      rfl
    · cases h

theorem decode_eq_error {bytes : List UInt8} {fault : DecodeFault} (hl : bytes.length ≤ maxLength)
    (h : decode bytes = .error fault) :
    bytes = [] ∧ fault = .empty ∨ bytes ≠ [] ∧ (words bytes = [] ∧ fault = .truncated 0 ∨
      (∃ t ts, words bytes = t :: ts ∧ readVersion t = .error fault) ∨
      ∃ ts, words bytes = 0xffff0200 :: ts ∧ readItems (ragged bytes) ⟨1, ts⟩ #[] = .error fault) := by
  simp only [decode, bind, Except.bind, pure, Except.pure, Nat.not_lt.2 hl, if_false] at h
  split at h
  · rename_i hne
    cases h
    exact .inl ⟨by simpa using hne, rfl⟩
  · rename_i hne
    refine .inr ⟨by simpa using hne, ?_⟩
    cases hw : words bytes with
    | nil =>
      rw [hw] at h
      cases h
      exact .inl ⟨rfl, rfl⟩
    | cons version ts =>
      simp only [hw, next] at h
      split at h
      · rename_i hv
        cases h
        exact .inr (.inl ⟨version, ts, rfl, hv⟩)
      · rename_i hv
        split at h
        · rename_i hr
          cases h
          rw [(readVersion_eq_ok.1 hv).1]
          exact .inr (.inr ⟨ts, rfl, hr⟩)
        · cases h

theorem Culprit.ne_truncated {head : List UInt32} {t : UInt32} {fault : DecodeFault} (h : Culprit head t fault)
    (index : Nat) : fault ≠ .truncated index := by
  rintro rfl
  cases h with
  | operand _ hr => cases hr

theorem token_in_bytes {bytes : List UInt8} {before rest : List UInt32} {t : UInt32}
    (h : words bytes = before ++ t :: rest) : (words bytes)[before.length]? = some t ∧
      4 * (before.length + 1) ≤ bytes.length ∧ ∃ tail, bytes = bytesOfWords before ++ (bytesOfWord t ++ tail) := by
  have hplace : (words bytes)[before.length]? = some t := by
    rw [h, List.getElem?_append_right (Nat.le_refl _), Nat.sub_self]
    rfl
  refine ⟨hplace, ?_, ?_⟩
  · have hlt := (List.getElem?_eq_some_iff.1 hplace).1
    rw [length_words] at hlt
    omega
  · obtain ⟨tail, hb, -⟩ := exists_bytesOfWords_append bytes
    rw [h, bytesOfWords_append, bytesOfWords_cons, List.append_assoc, List.append_assoc] at hb
    exact ⟨bytesOfWords rest ++ tail, hb⟩

/-- **A fault names the token that is wrong.**  Bytes that are cut off are so at the first token that is not whole.  Any
other token that a fault names is in the bytes, behind whole items that decode by themselves and the tokens of its own
item, and it is as wrong as the fault says. -/
theorem decode_error_culprit (bytes : List UInt8) (fault : DecodeFault) (hl : bytes.length ≤ 262144)
    (h : decode bytes = .error fault) :
    (∀ index, fault = .truncated index → index = bytes.length / 4) ∧
    ∀ index, fault.token? = some index → fault ≠ .truncated index →
      ∃ items is head t rest, bytes = versionBytes ++ items ++ bytesOfWords (head ++ [t]) ++ rest ∧
        WholeItems items is ∧ decode (versionBytes ++ items) = .ok (.ofInstructions is) ∧
        index = 1 + items.length / 4 + head.length ∧ (words bytes)[index]? = some t ∧ 4 * (index + 1) ≤ bytes.length ∧
        Culprit head t fault := by
  rcases decode_eq_error hl h with ⟨-, rfl⟩ | ⟨-, ⟨hw, rfl⟩ | ⟨t, ts, hw, hv⟩ | ⟨ts, hw, hr⟩⟩
  · exact ⟨fun index hi => (by cases hi), fun index hi => (by cases hi)⟩
  · refine ⟨fun index hi => ?_, fun index hi hne => ?_⟩
    · cases hi
      rw [← length_words, hw]
      rfl
    · cases hi
      exact absurd rfl hne
  · have hnone := token?_of_readVersion hv
    refine ⟨fun index hi => ?_, fun index hi => ?_⟩
    · rw [hi] at hnone
      cases hnone
    · rw [hnone] at hi
      cases hi
  · rcases failsBehindItems_of_readItems hr with rfl | ⟨us, is, d, his, hd, hdpos, head, t, rest, hrest, ht, htoken⟩
    · refine ⟨fun index hi => ?_, fun index hi hne => ?_⟩
      · cases hi
        rw [← length_words, hw, List.length_cons, Nat.add_comm]
      · cases hi
        exact absurd rfl hne
    · refine ⟨fun index hi => absurd hi (ht.ne_truncated index), fun index hi _ => ?_⟩
      obtain rfl : 1 + us.length + head.length = index := by
        rw [htoken, hdpos] at hi
        exact Option.some.inj hi
      have hts : words bytes = (0xffff0200 :: (us ++ head)) ++ t :: rest := by
        rw [hw, show ts = us ++ d.rest from hd, hrest, List.cons_append, List.append_assoc]
      have hlen : (0xffff0200 :: (us ++ head)).length = 1 + us.length + head.length := by
        rw [List.length_cons, List.length_append, Nat.add_comm, Nat.add_assoc]
      obtain ⟨hplace, hin, tail, hbytes⟩ := token_in_bytes hts
      rw [hlen] at hplace hin
      have hitems : (bytesOfWords us).length / 4 = us.length := by
        rw [length_bytesOfWords]
        omega
      have hok : decode (versionBytes ++ bytesOfWords us) = .ok (.ofInstructions is) := by
        refine (decode_version_eq_ok ?_).2 ⟨rfl, items_iff_wholeItems.2 (.inl his)⟩
        rw [length_bytesOfWords, maxLength]
        omega
      refine ⟨bytesOfWords us, is, head, t, tail, ?_, his, hok, by rw [hitems], hplace, hin, ht⟩
      rw [hbytes, bytesOfWords_cons, bytesOfWords_append, bytesOfWords_append]
      simp only [versionBytes, bytesOfWords, List.flatMap_cons, List.flatMap_nil, List.append_assoc, List.append_nil]

/-- Behind a comment and a `nop`, an `add` whose second source has a modifier that there is not. -/
theorem decode_unknown_modifier :
    let bytes := bytesOfWords [0xffff0200, 0x0001fffe, 0x0000ffff, 0x00000000, 0x00000002, 0x800f0000, 0x80e40000,
      0x8ee40001, 0x0000ffff]
    decode bytes = .error (.badRegister 7 (.invalidModifier 14)) ∧
      ∃ items is head t rest, bytes = versionBytes ++ items ++ bytesOfWords (head ++ [t]) ++ rest ∧
        WholeItems items is ∧ 7 = 1 + items.length / 4 + head.length ∧ (words bytes)[7]? = some t ∧
        Culprit head t (.badRegister 7 (.invalidModifier 14)) := by
  intro bytes
  have h : decode bytes = .error (.badRegister 7 (.invalidModifier 14)) := by cbv
  obtain ⟨items, is, head, t, rest, hb, hi, -, hindex, hplace, -, ht⟩ :=
    (decode_error_culprit bytes _ (by decide) h).2 7 rfl (fun e => by cases e)
  exact ⟨h, items, is, head, t, rest, hb, hi, hindex, hplace, ht⟩

end PixelShader.Bytecode
