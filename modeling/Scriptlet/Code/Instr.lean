import Scriptlet.Code.Chunk
import Scriptlet.Code.Opcode

/-! # Instructions

An instruction is an opcode with its argument: a slot, an index, a number or a displacement, and zero
for an opcode without operand. Writing an instruction appends its opcode byte and its operand, low
byte first, to a chunk.
-/

namespace Scriptlet

variable {ω : Type} [Opcode ω]

/-- An instruction, with the source line it belongs to. -/
structure Instr (ω : Type) where
  op : ω
  arg : Int
  line : Int
deriving DecidableEq, Repr

namespace Instr

/-- The number of bytes of an instruction. -/
def width (i : Instr ω) : Nat :=
  Opcode.width i.op

/-- The number stored in the operand. -/
def stored (i : Instr ω) : Int :=
  (Opcode.layout i.op).stored i.arg

end Instr

/-- A sequence of instructions. -/
abbrev Code (ω : Type) := List (Instr ω)

/-- The number of bytes of a sequence of instructions. -/
def Code.size (code : Code ω) : Nat :=
  code.foldr (fun i size => i.width + size) 0

namespace Chunk

/-- Appends an instruction. -/
def writeInstr (c : Chunk) (i : Instr ω) : Except ChunkError Chunk := do
  let (_, c) ← c.write (Opcode.byte i.op) i.line
  match (Opcode.layout i.op).width with
  | 0 => return c
  | 1 => return (← c.write (UInt8.ofInt i.stored) i.line).2
  | _ => return (← c.writeWord (UInt16.ofInt i.stored) i.line).2

/-- Appends a sequence of instructions. -/
def writeCode (c : Chunk) (code : Code ω) : Except ChunkError Chunk :=
  code.foldlM writeInstr c

end Chunk

end Scriptlet
