import Mathlib
import PixelShader.Proofs.Bytecode.Culprit
/-!
# Bytecode that is cut off

Bytes that decode, cut off anywhere, are never taken for something else: what is left decodes to the first
instructions of the program, or is found to be cut off.  Any other fault would have a culprit, and a culprit stands in
no item of the bytes that decode (`Culprit.not_parses`).
-/
namespace PixelShader.Bytecode

open Reader

/-! ## Culprits and items -/

/-- The token can stand in the role. -/
def Role.Suits : Role → UInt32 → Prop
  | destination, t => ∃ d, IsDestination t d
  | source, t => ∃ s, IsSource t s
  | free, _ => True

theorem Role.Refuses.not_suits {role : Role} {t : UInt32} {fault : DecodeFault} (h : role.Refuses t fault) :
    ¬ role.Suits t := by
  intro hs
  cases role with
  | destination =>
    obtain ⟨d, hd, hlt⟩ := hs
    have hr : readRegister t = .ok d.register := by
      rw [readRegister_eq_map, hd]
      rfl
    cases h with
    | destination he =>
      rw [hr] at he
      cases he
    | range _ he hle =>
      rw [hr] at he
      cases he
      omega
  | source =>
    obtain ⟨s, hs, hlt⟩ := hs
    cases h with
    | source he =>
      rw [hs] at he
      cases he
    | range _ he hle =>
      rw [readRegister_of_readSource hs] at he
      cases he
      omega
  | free =>
    cases h with
    | range hne _ _ => exact hne rfl

theorem Operands.suits {s : Shape} {ts : List UInt32} {o : Operation} (h : Operands s ts o) :
    List.Forall₂ Role.Suits s.roles ts := by
  cases h with
  | nop => exact .nil
  | mov hd ha | unary _ hd ha => exact .cons ⟨_, hd⟩ (.cons ⟨_, ha⟩ .nil)
  | binary _ hd ha hb | texld hd ha hb => exact .cons ⟨_, hd⟩ (.cons ⟨_, ha⟩ (.cons ⟨_, hb⟩ .nil))
  | ternary _ hd ha hb hc => exact .cons ⟨_, hd⟩ (.cons ⟨_, ha⟩ (.cons ⟨_, hb⟩ (.cons ⟨_, hc⟩ .nil)))
  | declaration kind hd => exact .cons trivial (.cons ⟨_, hd⟩ .nil)
  | definition x y z w hd =>
    exact .cons ⟨_, hd⟩ (.cons trivial (.cons trivial (.cons trivial (.cons trivial .nil))))

theorem Spells.suits {t : UInt32} {ts : List UInt32} {i : Instruction} (h : Spells (t :: ts) i) :
    ∃ s : Shape, s.HasOpcode (t.toNat % 0x10000) ∧ List.Forall₂ Role.Suits (s.rolesBehind t) ts := by
  cases h with
  | @plain _ _ s _ ho hb hops =>
    refine ⟨s, ho, ?_⟩
    rw [Shape.rolesBehind, if_neg (by simp [hb]), List.append_nil]
    exact hops.suits
  | @predicated _ us u s _ q ho hb hops hq =>
    refine ⟨s, ho, ?_⟩
    rw [Shape.rolesBehind, if_pos hb]
    exact List.rel_append hops.suits (.cons ⟨q, hq⟩ .nil)

theorem Shape.HasOpcode.unique {s s' : Shape} {opcode : Nat} (h : s.HasOpcode opcode) (h' : s'.HasOpcode opcode) :
    s = s' := by
  rw [← shape?_eq_some] at h h'
  exact Option.some.inj (h.symm.trans h')

theorem Operands.defines {ts : List UInt32} {o : Operation} (h : Operands .definition ts o) :
    ∃ t us d, ts = t :: us ∧ IsDestination t d ∧ d.register.kind = .constant ∧ d.mask = .full := by
  cases h with
  | definition x y z w hd hk hm => exact ⟨_, _, _, rfl, hd, hk, hm⟩

theorem Spells.defines {o : UInt32} {ts : List UInt32} {i : Instruction} (h : Spells (o :: ts) i)
    (ho : o.toNat % 0x10000 = 0x51) :
    ∃ t us d, ts = t :: us ∧ IsDestination t d ∧ d.register.kind = .constant ∧ d.mask = .full := by
  have hdef : Shape.definition.HasOpcode (o.toNat % 0x10000) := .inl ho
  cases h with
  | plain hs _ hops =>
    obtain rfl := hdef.unique hs
    exact hops.defines
  | predicated hs _ hops _ =>
    obtain rfl := hdef.unique hs
    obtain ⟨t, us, d, rfl, hd⟩ := hops.defines
    exact ⟨t, _, d, rfl, hd⟩

theorem Parses.spells {t : UInt32} {ts : List UInt32} {item : Item} (h : Parses (t :: ts) item) {s : Shape}
    (ho : s.HasOpcode (t.toNat % 0x10000)) : ∃ i, Spells (t :: ts) i := by
  have hlt := ho.lt
  cases h with
  | stop ht =>
    unfold IsEnd at ht
    omega
  | comment ht =>
    unfold IsComment at ht
    omega
  | instruction hs => exact ⟨_, hs⟩

theorem Parses.defines {o t : UInt32} {ts more rest : List UInt32} {item : Item} (h : Parses (o :: ts) item)
    (ho : o.toNat % 0x10000 = 0x51) (he : ts ++ more = t :: rest) {d : Destination} (hd : IsDestination t d) :
    d.register.kind = .constant ∧ d.mask = .full := by
  obtain ⟨i, hs⟩ := h.spells (s := .definition) (.inl ho)
  obtain ⟨t', us, d', rfl, hd', hdef⟩ := hs.defines ho
  obtain ⟨rfl, -⟩ := List.cons.inj he
  have hdd : d = d' := by
    have hok := hd.1.symm.trans hd'.1
    cases hok
    rfl
  rw [hdd]
  exact hdef

theorem Parses.exists_cons {ts : List UInt32} {item : Item} (h : Parses ts item) : ∃ t us, ts = t :: us := by
  cases h with
  | stop => exact ⟨_, _, rfl⟩
  | comment => exact ⟨_, _, rfl⟩
  | instruction hs => cases hs <;> exact ⟨_, _, rfl⟩

/-- **A culprit stands in no item.** -/
theorem Culprit.not_parses {head : List UInt32} {t : UInt32} {fault : DecodeFault} (h : Culprit head t fault)
    {ts more rest : List UInt32} {item : Item} (he : ts ++ more = head ++ t :: rest) : ¬ Parses ts item := by
  intro hp
  obtain ⟨o, us, rfl⟩ := hp.exists_cons
  cases h with
  | opcode hno hc hend =>
    cases he
    cases hp with
    | stop ht => exact hend ht
    | comment ht => exact hc ht.1
    | instruction hs =>
      obtain ⟨s, ho, -⟩ := hs.suits
      exact hno s ho
  | operand hx hr =>
    cases hx with
    | @behind _ before _ s ho hrole =>
      obtain ⟨rfl, hus⟩ : o = _ ∧ us ++ more = before ++ t :: rest := List.cons.inj he
      obtain ⟨i, hs⟩ := hp.spells ho
      obtain ⟨s', ho', hsuits⟩ := hs.suits
      obtain rfl := ho.unique ho'
      -- the culprit is one of the tokens that suit their roles
      obtain ⟨hlr, hrole⟩ := List.getElem?_eq_some_iff.1 hrole
      have hlt : before.length < us.length := by
        rw [← hsuits.length_eq]
        exact hlr
      have ht : us[before.length]? = some t := by
        rw [← List.getElem?_append_left hlt, hus, List.getElem?_append_right (Nat.le_refl _), Nat.sub_self]
        rfl
      have hsuit := hsuits.get hlr hlt
      rw [List.get_eq_getElem, List.get_eq_getElem, hrole, (List.getElem?_eq_some_iff.1 ht).2] at hsuit
      exact hr.not_suits hsuit
  | target ho hd hk =>
    obtain ⟨rfl, hus⟩ := List.cons.inj he
    exact hk (hp.defines ho hus hd).1
  | mask ho hd hk hm =>
    obtain ⟨rfl, hus⟩ := List.cons.inj he
    exact hm (hp.defines ho hus hd).2

/-! ## Streams -/

section
variable {leftOver : Bool} {more : List UInt32}

theorem prefix_of_readItems {c : Cursor} {done out : Array Instruction} (h : readItems leftOver c done = .ok out) :
    done.toList <+: out.toList := by
  obtain ⟨is, -, ho⟩ := stream_of_readItems h
  exact ⟨is, ho.symm⟩

theorem readItem_cut {c : Cursor} {done out : Array Instruction} {fault : DecodeFault}
    (h : readItems leftOver ⟨c.position, c.rest ++ more⟩ done = .ok out) (hne : c.rest ≠ [])
    (hi : readItem c = .error fault) : fault = .truncated (c.position + c.rest.length) := by
  refine (blames_readItem c fault hi).resolve_right ?_
  rintro ⟨head, t, rest, hrest, ht, -⟩
  cases hlong : readItem ⟨c.position, c.rest ++ more⟩ with
  | error fault' =>
    rw [readItems_fault (by simp [hne]) hlong] at h
    cases h
  | ok x =>
    obtain ⟨item, d⟩ := x
    obtain ⟨ts, hp, hts, -⟩ := (recognises_readItem _ _ _).1 hlong
    have he : ts ++ d.rest = head ++ t :: (rest ++ more) := by
      rw [← hts]
      simp [hrest]
    exact ht.not_parses he hp

theorem readItem_uncut {c c' : Cursor} {item : Item} (hi : readItem c = .ok (item, c')) :
    readItem ⟨c.position, c.rest ++ more⟩ = .ok (item, ⟨c'.position, c'.rest ++ more⟩) := by
  obtain ⟨ts, hp, hr, hpos⟩ := (recognises_readItem _ _ _).1 hi
  rw [hr, hpos, List.append_assoc]
  exact readItem_append hp _ _

/-- **The first tokens of a stream are the first of its instructions, or cut off.** -/
theorem readItems_cut (leftOver' : Bool) {c : Cursor} {done out : Array Instruction}
    (h : readItems leftOver ⟨c.position, c.rest ++ more⟩ done = .ok out) :
    (∃ cut, readItems leftOver' c done = .ok cut ∧ cut.toList <+: out.toList) ∨
      readItems leftOver' c done = .error (.truncated (c.position + c.rest.length)) := by
  have hend : ∀ {c c' : Cursor} {item : Item}, readItem c = .ok (item, c') →
      c'.position + c'.rest.length = c.position + c.rest.length := by
    intro c c' item hi
    obtain ⟨ts, -, hr, hpos⟩ := (recognises_readItem _ _ _).1 hi
    rw [hr, hpos, List.length_append, Nat.add_assoc]
  fun_induction readItems leftOver' c done with
  | case1 c done hc hl =>
    rw [hc]
    exact .inr rfl
  | case2 c done hc hl => exact .inl ⟨done, rfl, prefix_of_readItems h⟩
  | case3 c done t rest hc fault hi =>
    have hne : c.rest ≠ [] := by
      rw [hc]
      exact List.cons_ne_nil t rest
    rw [readItem_cut h hne hi]
    exact .inr rfl
  | case4 c done t rest hc c' hi => exact .inl ⟨done, rfl, prefix_of_readItems h⟩
  | case5 c done t rest hc c' hi ih =>
    rw [readItems_item (readItem_uncut hi)] at h
    rw [← hend hi]
    exact ih h
  | case6 c done t rest hc i c' hi ih =>
    rw [readItems_item (readItem_uncut hi)] at h
    rw [← hend hi]
    exact ih h

end

/-! ## Bytecode -/

theorem exists_words_take (bytes : List UInt8) (k : Nat) : ∃ more, words bytes = words (bytes.take k) ++ more := by
  obtain ⟨tail, hb, -⟩ := exists_bytesOfWords_append (bytes.take k)
  refine ⟨words (tail ++ bytes.drop k), ?_⟩
  rw [← words_bytesOfWords_append, ← List.append_assoc, ← hb, List.take_append_drop]

theorem decode_of_words_nil {bytes : List UInt8} (hl : bytes.length ≤ maxLength) (hne : bytes ≠ [])
    (hw : words bytes = []) : decode bytes = .error (.truncated 0) := by
  simp only [decode, hw, next, Nat.not_lt.2 hl, List.isEmpty_iff, hne, bind, Except.bind, if_false]

theorem decode_take_pos {bytes : List UInt8} {p : Program} {k : Nat} (h : decode bytes = .ok p) (hk : k ≤ bytes.length)
    (hpos : 0 < k) : (∃ q, decode (bytes.take k) = .ok q ∧ q.instructions <+: p.instructions) ∨
      decode (bytes.take k) = .error (.truncated (k / 4)) := by
  obtain ⟨hl, -, ts, out, hw, hr, rfl⟩ := decode_eq_ok_iff_readItems.1 h
  have hlen : (bytes.take k).length = k := List.length_take_of_le hk
  obtain ⟨more, hmore⟩ := exists_words_take bytes k
  cases hc : words (bytes.take k) with
  | nil =>
    right
    have hne : bytes.take k ≠ [] := by
      rw [← List.length_pos_iff, hlen]
      exact hpos
    rw [decode_of_words_nil (by omega) hne hc, ← hlen, ← length_words, hc]
    rfl
  | cons t cut =>
    rw [hw, hc] at hmore
    obtain ⟨rfl, rfl⟩ := List.cons.inj hmore
    obtain ⟨rest, hb, rfl⟩ := exists_bytesOfWord_append hc
    have hfit : 4 + rest.length ≤ maxLength := by
      rw [hb, List.length_append] at hlen
      exact Nat.le_trans (Nat.le_of_eq hlen) (hk.trans hl)
    have hk4 : k / 4 = 1 + (words rest).length := by
      rw [← hlen, ← length_words, hc, List.length_cons, Nat.add_comm]
    have hd : decode (bytes.take k) = _ := hb ▸ decode_version_append hfit
    rw [hd, hk4]
    rcases readItems_cut (ragged rest) (c := ⟨1, words rest⟩) hr with ⟨cut, hcut, hprefix⟩ | hcut
    · rw [hcut]
      exact .inl ⟨.ofInstructions cut.toList, rfl, hprefix⟩
    · rw [hcut]
      exact .inr rfl

/-- **Bytecode that is cut off is never taken for something else.**  The first bytes of bytes that decode are none at
all, or decode to the first instructions, or are found to be cut off where they are. -/
theorem decode_take (bytes : List UInt8) (p : Program) (k : Nat) (h : decode bytes = .ok p) (hk : k ≤ bytes.length) :
    (decode (bytes.take k) = .error .empty ↔ k = 0) ∧
      ((∃ q, decode (bytes.take k) = .ok q ∧ q.instructions <+: p.instructions) ∨
        decode (bytes.take k) = .error .empty ∨ decode (bytes.take k) = .error (.truncated (k / 4))) := by
  rcases Nat.eq_zero_or_pos k with rfl | hpos
  · have he : decode (bytes.take 0) = .error .empty := rfl
    exact ⟨⟨fun _ => rfl, fun _ => he⟩, .inr (.inl he)⟩
  · have hcut := decode_take_pos h hk hpos
    refine ⟨⟨fun he => ?_, fun h0 => absurd h0 hpos.ne'⟩, hcut.imp_right .inr⟩
    rw [he] at hcut
    rcases hcut with ⟨q, hq, -⟩ | hcut
    · cases hq
    · cases hcut

/-- A `nop` and a `mov`, cut off between the two and inside the first operand of the `mov`. -/
theorem decode_take_mov :
    let bytes := bytesOfWords [0xffff0200, 0x00000000, 0x00000001, 0x800f0000, 0x80e40001]
    let nop : Instruction := { operation := .nop }
    let mov : Instruction := { operation := .mov { register := ⟨.temp, 0⟩ } { register := ⟨.temp, 1⟩ } }
    decode bytes = .ok (.ofInstructions [nop, mov]) ∧ (∃ q, decode (bytes.take 8) = .ok q ∧ q.instructions <+: [nop, mov]) ∧
      decode (bytes.take 14) = .error (.truncated (14 / 4)) := by
  intro bytes nop mov
  have h : decode bytes = .ok (.ofInstructions [nop, mov]) := by cbv
  refine ⟨h, ?_, ?_⟩
  · have h₈ : decode (bytes.take 8) = .ok (.ofInstructions [nop]) := by cbv
    rcases (decode_take bytes _ 8 h (by decide)).2 with hq | he | he
    · exact hq
    · rw [h₈] at he
      cases he
    · rw [h₈] at he
      cases he
  · have h₁₄ : (decode (bytes.take 14)).isOk = false := by cbv
    obtain ⟨hempty, ⟨q, hq, -⟩ | he | he⟩ := decode_take bytes _ 14 h (by decide)
    · rw [hq] at h₁₄
      cases h₁₄
    · cases hempty.1 he
    · exact he

end PixelShader.Bytecode
