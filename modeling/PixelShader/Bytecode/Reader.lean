import PixelShader.Bytecode.Fault
/-!
# Reading tokens

Bytecode is a list of bytes, four to a token with the least significant one first.  Up to three bytes may be left over
at its end; they make no token, and running into them is the same as running into the end.  A reader takes tokens from
the front of what is left and knows the index of the next one.
-/
namespace PixelShader.Bytecode

/-! ## Bytes and tokens -/

def word (a b c d : UInt8) : UInt32 :=
  a.toUInt32 ||| (b.toUInt32 <<< 8) ||| (c.toUInt32 <<< 16) ||| (d.toUInt32 <<< 24)

def wordsOnto (acc : Array UInt32) : List UInt8 → Array UInt32
  | a :: b :: c :: d :: rest => wordsOnto (acc.push (word a b c d)) rest
  | _ => acc

def words (bytes : List UInt8) : List UInt32 := (wordsOnto #[] bytes).toList

def ragged (bytes : List UInt8) : Bool := bytes.length % 4 != 0

/-! ## Readers -/

structure Cursor where
  position : Nat
  rest : List UInt32

abbrev Reader := StateT Cursor (Except DecodeFault)

namespace Reader

def position : Reader Nat := fun c => .ok (c.position, c)

/-- The next token; without one the stream is cut off where it ends. -/
def next : Reader UInt32 := fun c =>
  match c.rest with
  | [] => .error (.truncated c.position)
  | token :: rest => .ok (token, ⟨c.position + 1, rest⟩)

def dropExactly {α : Type} : Nat → List α → Option (List α)
  | 0, l => some l
  | _ + 1, [] => none
  | n + 1, _ :: l => dropExactly n l

def skip (n : Nat) : Reader Unit := fun c =>
  match dropExactly n c.rest with
  | none => .error (.truncated (c.position + c.rest.length))
  | some rest => .ok ((), ⟨c.position + n, rest⟩)

/-- Reads a parameter token whose register a program can address. -/
def parameter {α : Type} (read : UInt32 → Except RegisterFault α) (register : α → Register) : Reader α := do
  let index ← position
  match read (← next) with
  | .error cause => throw (.badRegister index cause)
  | .ok a => if (register a).inRange then pure a else throw (.registerOutOfRange index (register a))

def destination : Reader Destination := parameter readDestination Destination.register

def source : Reader Source := parameter readSource Source.register

def lane : Reader Lane := return ⟨← next⟩

/-! ## Readers never step back -/

def Forward {α : Type} (r : Reader α) : Prop :=
  ∀ c a c', r c = .ok (a, c') → c'.rest.length ≤ c.rest.length

theorem dropExactly_length {α : Type} : ∀ (n : Nat) (l l' : List α), dropExactly n l = some l' →
    l'.length ≤ l.length
  | 0, l, l', h => by simp only [dropExactly, Option.some.injEq] at h; simp [h]
  | n + 1, [], l', h => by simp [dropExactly] at h
  | n + 1, _ :: l, l', h => by
    have := dropExactly_length n l l' (by simpa [dropExactly] using h)
    simp only [List.length_cons]; omega

theorem bind_eq_ok {α β : Type} {r : Reader α} {f : α → Reader β} {c c' : Cursor} {b : β}
    (h : (r >>= f) c = .ok (b, c')) : ∃ a d, r c = .ok (a, d) ∧ f a d = .ok (b, c') := by
  cases hr : r c with
  | error e => simp [bind, StateT.bind, hr, Except.bind] at h
  | ok p => exact ⟨p.1, p.2, rfl, by simpa [bind, StateT.bind, hr, Except.bind] using h⟩

theorem forward_pure {α : Type} (a : α) : Forward (pure a) := fun c b c' h => by
  have : c = c' := by cases h; rfl
  simp [this]

theorem forward_throw {α : Type} (e : DecodeFault) : Forward (throw e : Reader α) := fun c b c' h => by
  cases h

theorem forward_bind {α β : Type} {r : Reader α} {f : α → Reader β} (hr : Forward r) (hf : ∀ a, Forward (f a)) :
    Forward (r >>= f) := fun c b c' h => by
  obtain ⟨a, d, h1, h2⟩ := bind_eq_ok h
  exact Nat.le_trans (hf a d b c' h2) (hr c a d h1)

theorem forward_position : Forward position := fun c a c' h => by
  cases h; exact Nat.le_refl _

theorem next_shorter {c c' : Cursor} {t : UInt32} (h : next c = .ok (t, c')) :
    c'.rest.length < c.rest.length := by
  unfold next at h
  split at h
  · cases h
  · rename_i hc
    cases h
    simp [hc]

theorem forward_next : Forward next := fun _ _ _ h => Nat.le_of_lt (next_shorter h)

theorem forward_skip (n : Nat) : Forward (skip n) := fun c a c' h => by
  unfold skip at h
  split at h
  · cases h
  · rename_i rest hr
    cases h
    exact dropExactly_length n c.rest rest hr

theorem forward_parameter {α : Type} (read : UInt32 → Except RegisterFault α) (register : α → Register) :
    Forward (parameter read register) :=
  forward_bind forward_position fun _ => forward_bind forward_next fun _ => by
    split
    · exact forward_throw _
    · split
      · exact forward_pure _
      · exact forward_throw _

theorem forward_destination : Forward destination := forward_parameter _ _

theorem forward_source : Forward source := forward_parameter _ _

theorem forward_lane : Forward lane := forward_bind forward_next fun _ => forward_pure _

end Reader
end PixelShader.Bytecode
