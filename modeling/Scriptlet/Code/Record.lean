import Scriptlet.Code.Instr

/-! # Records

Reading byte code back. A record is an instruction at its offset, with the constant that it names.
A byte that stands for no opcode of the instruction set, an operand that is cut off, and an index
outside the constant pool are errors.
-/

namespace Scriptlet

/-- What can go wrong when byte code is read. -/
inductive DecodeError where
  | unknownOpcode (byte : UInt8) (offset : Nat)
  | unknownIndex (index offset size : Nat)
  | chunk (e : ChunkError)
deriving DecidableEq, Repr

/-- The wording of an error; a byte is shown with two hexadecimal digits. -/
def DecodeError.message : DecodeError → String
  | unknownOpcode byte offset =>
      let high := Nat.digitChar (byte.toNat / 16)
      let low := Nat.digitChar (byte.toNat % 16)
      s!"Unknown opcode 0x{high}{low} at offset {offset}"
  | unknownIndex index offset size =>
      s!"Unknown constant index {index} at offset {offset} (pool size {size})"
  | chunk e => e.message

variable {ω : Type} [Opcode ω]

/-- An instruction read from a chunk. -/
structure Record (ω : Type) where
  offset : Nat
  instr : Instr ω
  /-- The constant that the instruction names, or the number that stands in the code itself. -/
  constant : Option Value
deriving DecidableEq, Repr

namespace Record

/-- The opcode of the instruction. -/
def op (r : Record ω) : ω :=
  r.instr.op

/-- The source line of the instruction. -/
def line (r : Record ω) : Int :=
  r.instr.line

/-- The number of bytes of the instruction. -/
def width (r : Record ω) : Nat :=
  r.instr.width

/-- The offset behind the instruction. -/
def next (r : Record ω) : Nat :=
  r.offset + r.width

/-- The slot, index or displacement, if the instruction has one. -/
def operand? (r : Record ω) : Option Int :=
  match Opcode.layout r.op with
  | .none | .immediate => none
  | _ => some r.instr.arg

/-- Where a jump leads, if that is not in front of the code. -/
def target? (r : Record ω) : Option Nat :=
  if (Opcode.layout r.op).isJump ∧ 0 ≤ r.next + r.instr.arg then
    some (r.next + r.instr.arg).toNat
  else
    none

end Record

namespace Chunk

/-- An operation of the chunk as a step of decoding. -/
def asDecode {α : Type} : Except ChunkError α → Except DecodeError α
  | .ok a => .ok a
  | .error e => .error (.chunk e)

/-- The argument of the instruction at an offset, and the constant that it names. -/
def decodeOperand (c : Chunk) (offset : Nat) :
    Layout → Except DecodeError (Int × Option Value)
  | .none => .ok (0, none)
  | .byte => do
      let byte ← asDecode (c.read (offset + 1))
      return (byte.toNat, none)
  | .word | .forwardJump => do
      let word ← asDecode (c.readWord (offset + 1))
      return (word.toNat, none)
  | .immediate => do
      let word ← asDecode (c.readWord (offset + 1))
      -- the number in the code takes the place of a constant
      return (signedWord word, some (.int (Int64.ofInt (signedWord word))))
  | .relativeJump => do
      let word ← asDecode (c.readWord (offset + 1))
      return (signedWord word, none)
  | .backwardJump => do
      let word ← asDecode (c.readWord (offset + 1))
      return (-(word.toNat : Int), none)
  | .constant => do
      let index ← asDecode (c.read (offset + 1))
      match c.pool[index.toNat]? with
      | some v => return (index.toNat, some v)
      | none => throw (.unknownIndex index.toNat offset c.pool.size)

/-- The instruction at an offset. -/
def decodeAt (c : Chunk) (offset : Nat) : Except DecodeError (Record ω) := do
  let byte ← asDecode (c.read offset)
  match Opcode.ofByte? byte with
  | none => throw (.unknownOpcode byte offset)
  | some op =>
      let line ← asDecode (c.lineAt offset)
      let (arg, constant) ← c.decodeOperand offset (Opcode.layout op)
      return { offset, instr := { op, arg, line }, constant }

/-- The instructions from an offset to the end of the code; `found` holds those in front of it, the
last one first. -/
def decodeFrom (c : Chunk) (offset : Nat) (found : List (Record ω)) :
    Except DecodeError (List (Record ω)) :=
  if offset < c.size then
    match c.decodeAt offset with
    | .error e => .error e
    | .ok r => decodeFrom c (offset + r.width) (r :: found)
  else
    .ok found.reverse
termination_by c.size - offset
decreasing_by
  have := Opcode.width_pos r.op
  simp only [Record.width, Instr.width, Record.op] at *
  omega

/-- All instructions of a chunk, in order. -/
def decode (c : Chunk) : Except DecodeError (List (Record ω)) :=
  c.decodeFrom 0 []

end Chunk

end Scriptlet
