import Mathlib
import PixelShader.Bytecode.Assemble
/-!
# The grammar of bytecode

What bytecode is, said without a reader: `Items` relates byte strings to the instructions that they spell.  A byte
string is taken apart into tokens by writing tokens down (`bytesOfWord`), and a token into its fields by
arithmetic.  The same grammar over tokens is `Stream`; it has the bytes that make no token as a flag, and is the form
that readers are compared with (`items_iff_stream`).
-/
namespace PixelShader.Bytecode

/-! ## Tokens -/

/-- The token names a register that can be written, and that a program can address. -/
def IsDestination (t : UInt32) (d : Destination) : Prop := readDestination t = .ok d ∧ d.register.number.toNat < 32

def IsSource (t : UInt32) (s : Source) : Prop := readSource t = .ok s ∧ s.register.number.toNat < 32

/-- The opcodes of a shape: its own, and an older one of `dp2add`. -/
def Shape.HasOpcode (s : Shape) (opcode : Nat) : Prop :=
  opcode = s.opcode ∨ opcode = 0x59 ∧ s = .ternary .dp2add

/-- The tokens behind the opcode, and the operation that they make. -/
inductive Operands : Shape → List UInt32 → Operation → Prop
  | nop : Operands .nop [] .nop
  | mov {t u d a} : IsDestination t d → IsSource u a → Operands .mov [t, u] (.mov d a)
  | unary {t u d a} (op : UnaryOp) : IsDestination t d → IsSource u a → Operands (.unary op) [t, u] (.unary op d a)
  | binary {t u v d a b} (op : BinaryOp) : IsDestination t d → IsSource u a → IsSource v b →
      Operands (.binary op) [t, u, v] (.binary op d a b)
  | ternary {t u v w d a b c} (op : TernaryOp) : IsDestination t d → IsSource u a → IsSource v b → IsSource w c →
      Operands (.ternary op) [t, u, v, w] (.ternary op d a b c)
  /-- The token before the destination is free; the texture kind is read from it. -/
  | declaration {t d} (kind : UInt32) : IsDestination t d →
      Operands .declaration [kind, t] (.declare (readTextureKind kind) d)
  | texld {t u v d a b} : IsDestination t d → IsSource u a → IsSource v b → Operands .texld [t, u, v] (.texld d a b)
  /-- The destination is a whole constant, and any four tokens are its value. -/
  | definition {t d} (x y z w : UInt32) : IsDestination t d → d.register.kind = .constant → d.mask = .full →
      Operands .definition [t, x, y, z, w] (.define d.register.number ⟨⟨x⟩, ⟨y⟩, ⟨z⟩, ⟨w⟩⟩)

/-- The tokens of an instruction.  Bit 28 of the first one tells whether a predicate stands behind the operands. -/
inductive Spells : List UInt32 → Instruction → Prop
  | plain {t ts s o} : s.HasOpcode (t.toNat % 0x10000) → t.toNat.testBit 28 = false → Operands s ts o →
      Spells (t :: ts) ⟨o, none⟩
  | predicated {t ts u s o q} : s.HasOpcode (t.toNat % 0x10000) → t.toNat.testBit 28 = true → Operands s ts o →
      IsSource u q → Spells (t :: (ts ++ [u])) ⟨o, some q⟩

/-- A comment token announces the number of tokens behind it in bits 16 to 30. -/
def IsComment (t : UInt32) (length : Nat) : Prop := t.toNat % 0x10000 = 0xfffe ∧ t.toNat / 0x10000 % 0x8000 = length

def IsEnd (t : UInt32) : Prop := t.toNat % 0x10000 = 0xffff

/-! ## Bytecode behind the version -/

/-- **The bytes behind the version token, and the instructions that they spell.** -/
inductive Items : List UInt8 → List Instruction → Prop
  | finished : Items [] []
  /-- Behind an end token there may be anything. -/
  | stopped {t} (rest : List UInt8) : IsEnd t → Items (bytesOfWord t ++ rest) []
  | comment {t body rest is} : IsComment t body.length → Items rest is → Items (bytesOfWords (t :: body) ++ rest) is
  | instruction {ts i rest is} : Spells ts i → Items rest is → Items (bytesOfWords ts ++ rest) (i :: is)

/-- The same over tokens.  Bytes left over behind the last whole token are in no item. -/
inductive Stream (leftOver : Bool) : List UInt32 → List Instruction → Prop
  | finished : leftOver = false → Stream leftOver [] []
  | stopped {t} (rest : List UInt32) : IsEnd t → Stream leftOver (t :: rest) []
  | comment {t body rest is} : IsComment t body.length → Stream leftOver rest is →
      Stream leftOver (t :: (body ++ rest)) is
  | instruction {ts i rest is} : Spells ts i → Stream leftOver rest is → Stream leftOver (ts ++ rest) (i :: is)

/-! ## Words and bytes -/

theorem toNat_shiftLeft_of_byte (x : UInt8) {n : UInt32} (hn : n.toNat ≤ 24) :
    (x.toUInt32 <<< n).toNat = x.toNat <<< n.toNat := by
  have hx := x.toNat_lt
  have hp : 2 ^ n.toNat ≤ 2 ^ 24 := Nat.pow_le_pow_right (by decide) hn
  have hlt : x.toNat <<< n.toNat < 2 ^ 32 := by
    rw [Nat.shiftLeft_eq]
    calc x.toNat * 2 ^ n.toNat ≤ 255 * 2 ^ 24 := Nat.mul_le_mul (by omega) hp
      _ < 2 ^ 32 := by decide
  rw [UInt32.toNat_shiftLeft, UInt8.toNat_toUInt32, Nat.mod_eq_of_lt (a := n.toNat) (by omega), Nat.mod_eq_of_lt hlt]

theorem toNat_word (a b c d : UInt8) :
    (word a b c d).toNat = a.toNat + 0x100 * b.toNat + 0x10000 * c.toNat + 0x1000000 * d.toNat := by
  have ha := a.toNat_lt
  have hb := b.toNat_lt
  have hc := c.toNat_lt
  -- each byte lies below the bits of the next one, so that `|||` adds
  have h₁ : a.toNat ||| b.toNat <<< 8 = a.toNat + 0x100 * b.toNat := by
    rw [Nat.or_comm, ← Nat.shiftLeft_add_eq_or_of_lt ha, Nat.shiftLeft_eq]
    omega
  have h₂ : (a.toNat + 0x100 * b.toNat) ||| c.toNat <<< 16 = a.toNat + 0x100 * b.toNat + 0x10000 * c.toNat := by
    rw [Nat.or_comm, ← Nat.shiftLeft_add_eq_or_of_lt (by omega), Nat.shiftLeft_eq]
    omega
  have h₃ : (a.toNat + 0x100 * b.toNat + 0x10000 * c.toNat) ||| d.toNat <<< 24 =
      a.toNat + 0x100 * b.toNat + 0x10000 * c.toNat + 0x1000000 * d.toNat := by
    rw [Nat.or_comm, ← Nat.shiftLeft_add_eq_or_of_lt (by omega), Nat.shiftLeft_eq]
    omega
  have hb8 := toNat_shiftLeft_of_byte b (n := 8) (by decide)
  have hc16 := toNat_shiftLeft_of_byte c (n := 16) (by decide)
  have hd24 := toNat_shiftLeft_of_byte d (n := 24) (by decide)
  simp only [UInt32.reduceToNat] at hb8 hc16 hd24
  simp only [word, UInt32.toNat_or, UInt8.toNat_toUInt32, hb8, hc16, hd24, h₁, h₂, h₃]

theorem word_bytes (t : UInt32) : word t.toUInt8 (t >>> 8).toUInt8 (t >>> 16).toUInt8 (t >>> 24).toUInt8 = t := by
  have ht := t.toNat_lt
  apply UInt32.toNat_inj.1
  simp only [toNat_word, UInt32.toNat_toUInt8, UInt32.toNat_shiftRight, Nat.shiftRight_eq_div_pow, UInt32.reduceToNat,
    Nat.reduceMod, Nat.reducePow]
  omega

theorem bytesOfWord_word (a b c d : UInt8) : bytesOfWord (word a b c d) = [a, b, c, d] := by
  have ha := a.toNat_lt
  have hb := b.toNat_lt
  have hc := c.toNat_lt
  have hd := d.toNat_lt
  simp only [bytesOfWord, List.cons.injEq, and_true, ← UInt8.toNat_inj, toNat_word, UInt32.toNat_toUInt8,
    UInt32.toNat_shiftRight, Nat.shiftRight_eq_div_pow, UInt32.reduceToNat, Nat.reduceMod, Nat.reducePow]
  omega

theorem bytesOfWords_cons (t : UInt32) (ts : List UInt32) : bytesOfWords (t :: ts) = bytesOfWord t ++ bytesOfWords ts :=
  rfl

theorem bytesOfWords_append (ts us : List UInt32) : bytesOfWords (ts ++ us) = bytesOfWords ts ++ bytesOfWords us := by
  simp [bytesOfWords]

theorem wordsOnto_eq_append : ∀ (bytes : List UInt8) (acc : Array UInt32),
    (wordsOnto acc bytes).toList = acc.toList ++ words bytes
  | a :: b :: c :: d :: rest, acc => by
    rw [words, wordsOnto, wordsOnto, wordsOnto_eq_append rest, wordsOnto_eq_append rest]
    simp
  | [], acc | [_], acc | [_, _], acc | [_, _, _], acc => by simp [words, wordsOnto]

theorem words_cons (a b c d : UInt8) (rest : List UInt8) :
    words (a :: b :: c :: d :: rest) = word a b c d :: words rest := by
  rw [words, wordsOnto, wordsOnto_eq_append]
  simp

theorem words_bytesOfWord_append (t : UInt32) (rest : List UInt8) :
    words (bytesOfWord t ++ rest) = t :: words rest := by
  show words (_ :: _ :: _ :: _ :: rest) = _
  rw [words_cons, word_bytes]

theorem words_bytesOfWords_append : ∀ (ts : List UInt32) (rest : List UInt8),
    words (bytesOfWords ts ++ rest) = ts ++ words rest
  | [], _ => rfl
  | t :: ts, rest => by
    rw [bytesOfWords_cons, List.append_assoc, words_bytesOfWord_append, words_bytesOfWords_append ts rest]
    rfl

theorem length_bytesOfWords : ∀ ts : List UInt32, (bytesOfWords ts).length = 4 * ts.length
  | [] => rfl
  | t :: ts => by
    rw [bytesOfWords_cons, List.length_append, length_bytesOfWords ts, List.length_cons]
    show 4 + _ = _
    omega

theorem ragged_bytesOfWords_append (ts : List UInt32) (rest : List UInt8) :
    ragged (bytesOfWords ts ++ rest) = ragged rest := by
  unfold ragged
  rw [List.length_append, length_bytesOfWords, Nat.mul_add_mod]

theorem ragged_bytesOfWord_append (t : UInt32) (rest : List UInt8) : ragged (bytesOfWord t ++ rest) = ragged rest :=
  ragged_bytesOfWords_append [t] rest

theorem exists_bytesOfWord_append {t : UInt32} {ts : List UInt32} : ∀ {bytes : List UInt8}, words bytes = t :: ts →
    ∃ rest, bytes = bytesOfWord t ++ rest ∧ words rest = ts
  | a :: b :: c :: d :: rest, h => by
    rw [words_cons] at h
    cases h
    exact ⟨rest, by rw [bytesOfWord_word]; rfl, rfl⟩
  | [], h | [_], h | [_, _], h | [_, _, _], h => by cases h

theorem exists_bytesOfWords_append : ∀ bytes : List UInt8,
    ∃ tail, bytes = bytesOfWords (words bytes) ++ tail ∧ (ragged bytes = false → tail = [])
  | a :: b :: c :: d :: rest => by
    obtain ⟨tail, ht, hr⟩ := exists_bytesOfWords_append rest
    refine ⟨tail, ?_, fun h => hr ?_⟩
    · rw [words_cons, bytesOfWords_cons, bytesOfWord_word, List.append_assoc, ← ht]
      rfl
    · rw [← ragged_bytesOfWord_append (word a b c d), bytesOfWord_word]
      exact h
  | [] => ⟨[], rfl, fun _ => rfl⟩
  | [a] => ⟨[a], rfl, fun h => by cases h⟩
  | [a, b] => ⟨[a, b], rfl, fun h => by cases h⟩
  | [a, b, c] => ⟨[a, b, c], rfl, fun h => by cases h⟩

theorem length_words : ∀ bytes : List UInt8, (words bytes).length = bytes.length / 4
  | a :: b :: c :: d :: rest => by
    rw [words_cons, List.length_cons, length_words rest]
    simp only [List.length_cons]
    omega
  | [] | [_] | [_, _] | [_, _, _] => by simp [words, wordsOnto]

/-! ## The two forms of the grammar -/

theorem Items.stream {bytes : List UInt8} {is : List Instruction} (h : Items bytes is) :
    Stream (ragged bytes) (words bytes) is := by
  induction h with
  | finished => exact .finished rfl
  | stopped rest ht =>
    rw [words_bytesOfWord_append]
    exact .stopped _ ht
  | comment ht _ ih =>
    rw [words_bytesOfWords_append, ragged_bytesOfWords_append]
    exact .comment ht ih
  | instruction hs _ ih =>
    rw [words_bytesOfWords_append, ragged_bytesOfWords_append]
    exact .instruction hs ih

theorem Stream.items {leftOver : Bool} {ts : List UInt32} {is : List Instruction} (h : Stream leftOver ts is)
    {tail : List UInt8} (ht : leftOver = false → tail = []) : Items (bytesOfWords ts ++ tail) is := by
  induction h with
  | finished hl =>
    rw [ht hl]
    exact .finished
  | stopped rest hs =>
    rw [bytesOfWords_cons, List.append_assoc]
    exact .stopped _ hs
  | @comment t body rest is hc _ ih =>
    have he : bytesOfWords (t :: (body ++ rest)) ++ tail = bytesOfWords (t :: body) ++ (bytesOfWords rest ++ tail) := by
      simp [bytesOfWords]
    rw [he]
    exact .comment hc ih
  | @instruction ts i rest is hs _ ih =>
    have he : bytesOfWords (ts ++ rest) ++ tail = bytesOfWords ts ++ (bytesOfWords rest ++ tail) := by
      simp [bytesOfWords]
    rw [he]
    exact .instruction hs ih

/-- **The grammar of bytes is that of their tokens.** -/
theorem items_iff_stream {bytes : List UInt8} {is : List Instruction} :
    Items bytes is ↔ Stream (ragged bytes) (words bytes) is := by
  refine ⟨Items.stream, fun h => ?_⟩
  obtain ⟨tail, hb, ht⟩ := exists_bytesOfWords_append bytes
  rw [hb]
  exact h.items ht

end PixelShader.Bytecode
