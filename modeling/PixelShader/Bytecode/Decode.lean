import PixelShader.Bytecode.Reader
/-!
# Decoding bytecode

A token stream is a version token and then items: comments, which are passed over, and instructions.  Each opcode has
a fixed shape of operands, so an instruction is read without its length field; bit 28 of the opcode token announces one
more token, the predicate.  The stream ends with an end token, behind which anything may stand, or with the bytes.
-/
namespace PixelShader.Bytecode

def endCode : Nat := 0xffff

/-- The low half of a comment token; the length in tokens stands in bits 16 to 30. -/
def commentCode : Nat := 0xfffe

def opcodeOf (token : UInt32) : Nat := field token 0 16

def isPredicated (token : UInt32) : Bool := field token 28 1 == 1

open Reader

/-! ## Operations

An opcode names the shape of an instruction, and the shape says which tokens follow. -/

inductive Shape where
  | nop
  | mov
  | unary (op : UnaryOp)
  | binary (op : BinaryOp)
  | ternary (op : TernaryOp)
  | declaration
  | texld
  | definition
  deriving DecidableEq, Inhabited

/-- The shape of each opcode.  `dp2add` has two. -/
def shape? : Nat → Option Shape
  | 0x00 => some .nop
  | 0x01 => some .mov
  | 0x02 => some (.binary .add)
  | 0x03 => some (.binary .sub)
  | 0x04 => some (.ternary .mad)
  | 0x05 => some (.binary .mul)
  | 0x06 => some (.unary .rcp)
  | 0x07 => some (.unary .rsq)
  | 0x08 => some (.binary .dp3)
  | 0x09 => some (.binary .dp4)
  | 0x0a => some (.binary .min)
  | 0x0b => some (.binary .max)
  | 0x0e => some (.unary .exp)
  | 0x0f => some (.unary .log)
  | 0x12 => some (.ternary .lrp)
  | 0x13 => some (.unary .frc)
  | 0x1f => some .declaration
  | 0x23 => some (.unary .abs)
  | 0x25 => some (.ternary .sincos)
  | 0x42 => some .texld
  | 0x51 => some .definition
  | 0x58 => some (.ternary .cmp)
  | 0x59 => some (.ternary .dp2add)
  | 0x5a => some (.ternary .dp2add)
  | _ => none

/-- A definition is read whole before its destination is judged. -/
def readDefinition : Reader Operation := do
  let index ← position
  let d ← destination
  let value : Quad := ⟨← lane, ← lane, ← lane, ← lane⟩
  if d.register.kind ≠ .constant then throw (.defineTarget index d.register.kind)
  else if !d.mask.isFull then throw (.defineMask index d.mask)
  else return .define d.register.number value

/-- The operands of a shape.  A declaration has a token of its own before its destination. -/
def Shape.read : Shape → Reader Operation
  | nop => return .nop
  | mov => return .mov (← destination) (← source)
  | unary op => return .unary op (← destination) (← source)
  | binary op => return .binary op (← destination) (← source) (← source)
  | ternary op => return .ternary op (← destination) (← source) (← source) (← source)
  | declaration => return .declare (readTextureKind (← next)) (← destination)
  | texld => return .texld (← destination) (← source) (← source)
  | definition => readDefinition

def readOperation (opcode index : Nat) : Reader Operation :=
  match shape? opcode with
  | some s => s.read
  | none => throw (.unknownOpcode opcode index)

/-! ## Items -/

inductive Item where
  | stop
  | comment
  | instruction (i : Instruction)
  deriving DecidableEq, Inhabited

def readItemAfter (index : Nat) (token : UInt32) : Reader Item :=
  if opcodeOf token = endCode then return .stop
  else if opcodeOf token = commentCode then do
    skip (field token 16 15)
    return .comment
  else do
    let operation ← readOperation (opcodeOf token) index
    if isPredicated token then return .instruction ⟨operation, some (← source)⟩
    else return .instruction ⟨operation, none⟩

def readItem : Reader Item := do
  let index ← position
  readItemAfter index (← next)

theorem forward_readDefinition : Forward readDefinition :=
  forward_bind forward_position fun _ => forward_bind forward_destination fun _ =>
    forward_bind forward_lane fun _ => forward_bind forward_lane fun _ =>
    forward_bind forward_lane fun _ => forward_bind forward_lane fun _ => by
      split
      · exact forward_throw _
      · split
        · exact forward_throw _
        · exact forward_pure _

theorem Shape.forward_read : ∀ s : Shape, Forward s.read
  | nop => forward_pure _
  | mov | unary _ => forward_bind forward_destination fun _ => forward_bind forward_source fun _ => forward_pure _
  | binary _ | texld => forward_bind forward_destination fun _ => forward_bind forward_source fun _ =>
      forward_bind forward_source fun _ => forward_pure _
  | ternary _ => forward_bind forward_destination fun _ => forward_bind forward_source fun _ =>
      forward_bind forward_source fun _ => forward_bind forward_source fun _ => forward_pure _
  | declaration => forward_bind forward_next fun _ => forward_bind forward_destination fun _ => forward_pure _
  | definition => forward_readDefinition

theorem forward_readOperation (opcode index : Nat) : Forward (readOperation opcode index) := by
  unfold readOperation
  split
  · exact Shape.forward_read _
  · exact forward_throw _

theorem forward_readItemAfter (index : Nat) (token : UInt32) : Forward (readItemAfter index token) := by
  unfold readItemAfter
  split
  · exact forward_pure _
  · split
    · exact forward_bind (forward_skip _) fun _ => forward_pure _
    · refine forward_bind (forward_readOperation _ _) fun _ => ?_
      split
      · exact forward_bind forward_source fun _ => forward_pure _
      · exact forward_pure _

theorem readItem_shorter {c c' : Cursor} {i : Item} (h : readItem c = .ok (i, c')) :
    c'.rest.length < c.rest.length := by
  obtain ⟨index, d, h1, h⟩ := bind_eq_ok h
  obtain ⟨token, d', h2, h⟩ := bind_eq_ok h
  exact Nat.lt_of_le_of_lt (forward_readItemAfter index token d' i c' h)
    (Nat.lt_of_lt_of_le (next_shorter h2) (forward_position c index d h1))

/-! ## Streams -/

/-- The instructions from a cursor on, behind those already read.  Left-over bytes count as one more token, cut off. -/
def readItems (leftOver : Bool) (c : Cursor) (done : Array Instruction) :
    Except DecodeFault (Array Instruction) :=
  match c.rest with
  | [] => if leftOver then .error (.truncated c.position) else .ok done
  | _ :: _ =>
    match _h : readItem c with
    | .error fault => .error fault
    | .ok (.stop, _) => .ok done
    | .ok (.comment, c') => readItems leftOver c' done
    | .ok (.instruction i, c') => readItems leftOver c' (done.push i)
termination_by c.rest.length
decreasing_by all_goals exact readItem_shorter ‹_›

def readVersion (token : UInt32) : Except DecodeFault ShaderVersion :=
  if field token 16 16 ≠ 0xffff then .error (.notPixelShader token)
  else
    let version : ShaderVersion := ⟨UInt8.ofNat (field token 8 8), UInt8.ofNat (field token 0 8)⟩
    if version ≠ .model20 then .error (.unsupportedVersion version.major.toNat version.minor.toNat) else .ok version

def decode (bytes : List UInt8) : Except DecodeFault Program := do
  if maxLength < bytes.length then throw (.tooLarge bytes.length)
  if bytes.isEmpty then throw .empty
  let (token, c) ← next ⟨0, words bytes⟩
  let version ← readVersion token
  return { version, instructions := (← readItems (ragged bytes) c #[]).toList }

end PixelShader.Bytecode
