import Scriptlet.Code.Record
import Scriptlet.Text.Column

/-! # Listings

Byte code as text: a line per instruction, with its offset, its source line, its name and its
operand. The source line is left out where it is the same as the one above.
-/

namespace Scriptlet

open Text

variable {ω : Type} [Opcode ω]

namespace Record

/-- The name of an instruction in its column. -/
def nameColumn (r : Record ω) : String :=
  padRight 16 (Opcode.name r.op)

/-- The argument of an instruction in its column. -/
def argColumn (r : Record ω) : String :=
  padLeft 4 ' ' (toString r.instr.arg)

/-- The constant of an instruction as text. -/
def constantText (r : Record ω) : String :=
  (r.constant.getD .nil).text

/-- An instruction with its operand. -/
def describe (r : Record ω) : String :=
  match Opcode.layout r.op with
  | .none => Opcode.name r.op
  | .immediate => r.nameColumn ++ " " ++ r.constantText
  | .constant => r.nameColumn ++ " " ++ r.argColumn ++ " '" ++ r.constantText ++ "'"
  | .byte | .word => r.nameColumn ++ " " ++ r.argColumn
  | .relativeJump | .forwardJump | .backwardJump =>
      let target := match r.target? with
        | some offset => toString offset
        | none => "?"
      r.nameColumn ++ " " ++ r.argColumn ++ " -> " ++ target

/-- The line of a listing for an instruction, below an instruction of the source line `above`. -/
def listingLine (above : Option Int) (r : Record ω) : String :=
  let line := if above = some r.line then "   |" else padLeft 4 ' ' (toString r.line)
  padLeft 4 '0' (toString r.offset) ++ " " ++ line ++ " " ++ r.describe

end Record

/-- The lines of a listing. -/
def listing (records : List (Record ω)) : List String :=
  List.zipWith Record.listingLine (none :: records.map fun r => some r.line) records

end Scriptlet
