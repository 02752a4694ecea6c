import Scriptlet.Code.Listing
import Scriptlet.Gen.Pool
import Scriptlet.Gen.Word

/-! # Generating and listing code for a target -/

namespace Scriptlet

namespace Target

/-- The chunk of a program for a target. -/
def generate : Target → Program → Except GenError Chunk
  | word => WordOp.backend.program
  | pool => PoolOp.backend.program

/-- The chunk of an expression for a target; it leaves the expression's value on the stack. -/
def generateExpr : Target → Expr → Except GenError Chunk
  | word => WordOp.backend.expression
  | pool => PoolOp.backend.expression

/-- The listing of a chunk, read with the instruction set of a target. -/
def disassemble (target : Target) (c : Chunk) : Except DecodeError (List String) :=
  match target with
  | word => do
      let records : List (Record WordOp) ← c.decode
      return listing records
  | pool => do
      let records : List (Record PoolOp) ← c.decode
      return listing records

end Target

end Scriptlet
