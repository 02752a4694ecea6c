/-! # Operand layouts

An instruction is an opcode byte and, depending on the opcode, an operand of one or two bytes behind
it. The argument of an instruction is a number; its layout says how that number is stored.
-/

namespace Scriptlet

/-- How the operand of an instruction is laid out. -/
inductive Layout where
  /-- No operand. -/
  | none
  /-- A stack slot in one byte. -/
  | byte
  /-- A variable slot in two bytes. -/
  | word
  /-- A signed number in two bytes. -/
  | immediate
  /-- An index into the constant pool, in one byte. -/
  | constant
  /-- A signed displacement from the next instruction, in two bytes. -/
  | relativeJump
  /-- The distance of a jump forwards from the next instruction, in two bytes. -/
  | forwardJump
  /-- The distance of a jump backwards from the next instruction, in two bytes. -/
  | backwardJump
deriving DecidableEq, Repr

namespace Layout

/-- The number of bytes of the operand. -/
def width : Layout → Nat
  | none => 0
  | byte | constant => 1
  | word | immediate | relativeJump | forwardJump | backwardJump => 2

/-- Is the argument a displacement? -/
def isJump : Layout → Bool
  | relativeJump | forwardJump | backwardJump => true
  | _ => false

/-- The number stored for an argument. Displacements are negative for jumps backwards, of which the
distance is stored. -/
def stored (layout : Layout) (arg : Int) : Int :=
  match layout with
  | backwardJump => -arg
  | _ => arg

/-- Can the operand hold the argument? -/
def fits (layout : Layout) (arg : Int) : Bool :=
  match layout with
  | none => arg == 0
  | byte | constant => decide (0 ≤ arg ∧ arg < 256)
  | immediate | relativeJump => decide (-32768 ≤ arg ∧ arg < 32768)
  | word | forwardJump => decide (0 ≤ arg ∧ arg < 65536)
  | backwardJump => decide (0 ≤ -arg ∧ -arg < 65536)

end Layout

/-- The signed number that a word holds. -/
def signedWord (word : UInt16) : Int :=
  Int.bmod word.toNat 65536

end Scriptlet
