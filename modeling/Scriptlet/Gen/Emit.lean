import Scriptlet.Code.Instr
import Scriptlet.Gen.Error

/-! # Emitting code

Code is generated piece by piece: a piece of the program gives a sequence of instructions, and larger
pieces join the sequences of smaller ones. What is carried along is the current source line, the pool
of constants, and what the target remembers of variables. The length of a jump is known once the code
to be jumped over is there.
-/

namespace Scriptlet

/-- What is carried along while code is generated. -/
structure GenState (ν : Type) where
  /-- The source line of the code to come. -/
  line : Nat
  /-- The constants so far. -/
  pool : Pool
  /-- What the target remembers of variables. -/
  vars : ν

/-- A step of code generation. -/
abbrev Gen (ν : Type) := StateT (GenState ν) (Except GenError)

namespace Gen

variable {ω ν : Type} [Opcode ω]

/-- The largest line number that code can carry. -/
def maxLine : Nat := Nat.pow 2 31 - 1

/-- Attributes the code to come to a source line. -/
def setLine (line : Nat) : Gen ν Unit := do
  if line = 0 ∨ maxLine < line then throw (.unknownLine line)
  modify fun s => { s with line }

/-- The current source line. -/
def currentLine : Gen ν Nat :=
  return (← get).line

/-- What the target remembers of variables. -/
def vars : Gen ν ν :=
  return (← get).vars

/-- Changes what the target remembers of variables. -/
def setVars (vars : ν) : Gen ν Unit :=
  modify fun s => { s with vars }

/-- Fails at the current source line. -/
def failHere {α : Type} (error : Nat → GenError) : Gen ν α := do
  throw (error (← currentLine))

/-- Instructions with their arguments, at the current source line. -/
def instrs (ops : List (ω × Int)) : Gen ν (Code ω) := do
  let line ← currentLine
  return ops.map fun (op, arg) => { op, arg, line }

/-- Instructions without operands, at the current source line. -/
def plain (ops : List ω) : Gen ν (Code ω) :=
  instrs (ops.map fun op => (op, 0))

/-- A jump at the current source line, if its operand can hold the displacement. -/
def jumpBy (op : ω) (displacement : Int) : Gen ν (Code ω) := do
  let layout := Opcode.layout op
  if layout.fits displacement then instrs [(op, displacement)]
  else failHere (.jumpTooLarge (layout.stored displacement))

/-- Adds a constant to the pool and gives its index. -/
def addConstant (v : Value) : Gen ν Nat := do
  let s ← get
  match s.pool.add? v with
  | some (index, pool) =>
      set { s with pool }
      return index
  | none => failHere (.tooManyConstants Pool.limit)

end Gen

end Scriptlet
