import Scriptlet.Code.Chunk
import Scriptlet.Gen.StaticKind
import Scriptlet.Gen.Target

/-! # Errors of code generation -/

namespace Scriptlet

/-- What can stand in the way of generating code. -/
inductive GenError where
  | undefinedVariable (name : String) (line : Nat)
  | tooManyVariables (line : Nat)
  | tooManyLocals (line : Nat)
  /-- An operation that can never succeed on operands of these kinds. -/
  | invalidOperands (op : Operator) (found : List StaticKind) (line : Nat)
  | tooManyConstants (limit line : Nat)
  /-- A literal that the target has no value for. -/
  | unknownLiteral (value : Value) (target : Target) (line : Nat)
  /-- A line number that no code can carry. -/
  | unknownLine (line : Nat)
  /-- A jump over more bytes than its operand can tell. -/
  | jumpTooLarge (distance : Int) (line : Nat)
  | chunk (e : ChunkError) (line : Nat)
deriving DecidableEq, Repr

namespace GenError

/-- The wording of an error. -/
def message : GenError → String
  | undefinedVariable name line =>
      s!"Expression evaluation failed: undefined variable '{name}' at line {line}"
  | tooManyVariables line => s!"Expression evaluation failed: too many variables at line {line}"
  | tooManyLocals line =>
      s!"Expression evaluation failed: too many local variables in scope at line {line}"
  | invalidOperands op found line =>
      let kinds := " and ".intercalate (found.map StaticKind.name)
      s!"Invalid operand type for '{op.symbol}': {kinds} at line {line}"
  | tooManyConstants limit line =>
      s!"Too many constants in one chunk (limit {limit}) at line {line}"
  | unknownLiteral value target line =>
      s!"Literal {value.sourceText} cannot be encoded for {target.name} at line {line}"
  | unknownLine line => s!"Unknown source line {line}"
  | jumpTooLarge distance line =>
      s!"Jump distance {distance} does not fit the operand at line {line}"
  | chunk e line => s!"Bytecode error at line {line}: {e.message}"

/-- A failure of the chunk while code for a source line is written. -/
def ofChunk (e : ChunkError) (line : Nat) : GenError :=
  match e with
  | .tooManyConstants limit => tooManyConstants limit line
  | e => chunk e line

end GenError

end Scriptlet
