import Scriptlet.Code.Opcode

/-! # The word machine's instruction set

A stack machine whose values are machine words. Small numbers stand in the code itself, variables
live in numbered slots, and all jumps are signed displacements. Conditional jumps take their
condition from the stack, and so does the store into a slot.
-/

namespace Scriptlet

/-- Opcodes of the word machine. -/
inductive WordOp where
  | pushWord
  | getVar
  | setVar
  | add
  | sub
  | mul
  | div
  | negate
  | not
  | eq
  | neq
  | gt
  | ge
  | lt
  | le
  | pop
  | dup
  | print
  | jumpUnless
  | jump
  | jumpIf
  | stopScript
deriving DecidableEq, Repr

namespace WordOp

/-- The byte of an opcode. -/
def byte : WordOp → UInt8
  | pushWord => 0x01
  | getVar => 0x02
  | setVar => 0x03
  | add => 0x10
  | sub => 0x11
  | mul => 0x12
  | div => 0x13
  | negate => 0x14
  | not => 0x15
  | eq => 0x16
  | neq => 0x17
  | gt => 0x18
  | ge => 0x19
  | lt => 0x1A
  | le => 0x1B
  | pop => 0x1C
  | dup => 0x1D
  | print => 0x20
  | jumpUnless => 0x30
  | jump => 0x31
  | jumpIf => 0x32
  | stopScript => 0xA0

/-- The layout of an opcode's operand. -/
def layout : WordOp → Layout
  | pushWord => .immediate
  | getVar | setVar => .word
  | jumpUnless | jump | jumpIf => .relativeJump
  | _ => .none

/-- The name of an opcode. -/
def camelName : WordOp → String
  | pushWord => "PushWord"
  | getVar => "GetVar"
  | setVar => "SetVar"
  | add => "Add"
  | sub => "Sub"
  | mul => "Mul"
  | div => "Div"
  | negate => "Negate"
  | not => "Not"
  | eq => "Eq"
  | neq => "Neq"
  | gt => "Gt"
  | ge => "Ge"
  | lt => "Lt"
  | le => "Le"
  | pop => "Pop"
  | dup => "Dup"
  | print => "Print"
  | jumpUnless => "JumpUnless"
  | jump => "Jump"
  | jumpIf => "JumpIf"
  | stopScript => "StopScript"

instance : Opcode WordOp where
  all :=
    [pushWord, getVar, setVar, add, sub, mul, div, negate, not, eq, neq, gt, ge, lt, le, pop, dup,
      print, jumpUnless, jump, jumpIf, stopScript]
  byte := byte
  layout := layout
  camelName := camelName

/-- Every opcode is read back from its byte. -/
theorem ofByte?_byte (op : WordOp) : Opcode.ofByte? op.byte = some op := by
  cases op <;> decide

end WordOp

end Scriptlet
