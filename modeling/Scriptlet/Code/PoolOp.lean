import Scriptlet.Code.Opcode

/-! # The pool machine's instruction set

A stack machine whose values are the language's own. Literals come from a pool of constants, global
variables are found by name, and local variables are slots of the stack. Conditional jumps leave their
condition on the stack, and so do the stores into a variable; only a definition takes its value.
-/

namespace Scriptlet

/-- Opcodes of the pool machine. -/
inductive PoolOp where
  | constant
  | nil
  | true_
  | false_
  | pop
  | getLocal
  | setLocal
  | getGlobal
  | defineGlobal
  | setGlobal
  | equal
  | greater
  | less
  | add
  | subtract
  | multiply
  | divide
  | not
  | negate
  | print
  | jump
  | jumpIfFalse
  | loop
  | return_
deriving DecidableEq, Repr

namespace PoolOp

/-- The byte of an opcode. -/
def byte : PoolOp → UInt8
  | constant => 0x00
  | nil => 0x01
  | true_ => 0x02
  | false_ => 0x03
  | pop => 0x04
  | getLocal => 0x05
  | setLocal => 0x06
  | getGlobal => 0x07
  | defineGlobal => 0x08
  | setGlobal => 0x09
  | equal => 0x0A
  | greater => 0x0B
  | less => 0x0C
  | add => 0x0D
  | subtract => 0x0E
  | multiply => 0x0F
  | divide => 0x10
  | not => 0x11
  | negate => 0x12
  | print => 0x13
  | jump => 0x14
  | jumpIfFalse => 0x15
  | loop => 0x16
  | return_ => 0x17

/-- The layout of an opcode's operand. -/
def layout : PoolOp → Layout
  | constant | getGlobal | defineGlobal | setGlobal => .constant
  | getLocal | setLocal => .byte
  | jump | jumpIfFalse => .forwardJump
  | loop => .backwardJump
  | _ => .none

/-- The name of an opcode. -/
def camelName : PoolOp → String
  | constant => "Constant"
  | nil => "Nil"
  | true_ => "True"
  | false_ => "False"
  | pop => "Pop"
  | getLocal => "GetLocal"
  | setLocal => "SetLocal"
  | getGlobal => "GetGlobal"
  | defineGlobal => "DefineGlobal"
  | setGlobal => "SetGlobal"
  | equal => "Equal"
  | greater => "Greater"
  | less => "Less"
  | add => "Add"
  | subtract => "Subtract"
  | multiply => "Multiply"
  | divide => "Divide"
  | not => "Not"
  | negate => "Negate"
  | print => "Print"
  | jump => "Jump"
  | jumpIfFalse => "JumpIfFalse"
  | loop => "Loop"
  | return_ => "Return"

instance : Opcode PoolOp where
  all :=
    [constant, nil, true_, false_, pop, getLocal, setLocal, getGlobal, defineGlobal, setGlobal,
      equal, greater, less, add, subtract, multiply, divide, not, negate, print, jump, jumpIfFalse,
      loop, return_]
  byte := byte
  layout := layout
  camelName := camelName

/-- Every opcode is read back from its byte. -/
theorem ofByte?_byte (op : PoolOp) : Opcode.ofByte? op.byte = some op := by
  cases op <;> decide

end PoolOp

end Scriptlet
