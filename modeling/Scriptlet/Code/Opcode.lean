import Scriptlet.Code.Layout
import Scriptlet.Text.Capital

/-! # Opcodes

An instruction set is a list of opcodes, each with its byte, the layout of its operand, and its name
in camel case. Listings show names in capitals, with a low line between words.
-/

namespace Scriptlet

/-- An instruction set. -/
class Opcode (ω : Type) where
  /-- The opcodes, in the order of the set. -/
  all : List ω
  /-- The byte that stands for an opcode. -/
  byte : ω → UInt8
  /-- The layout of an opcode's operand. -/
  layout : ω → Layout
  /-- The name of an opcode, in camel case. -/
  camelName : ω → String

/-- A name in camel case written in capitals, with a low line in front of each capital but the first
character. Only letters of the English alphabet are capitalised. -/
def capitalName (camelName : String) : String :=
  match camelName.toList with
  | [] => ""
  | first :: rest =>
      String.ofList (first.toUpper :: rest.flatMap fun c =>
        if Text.isCapital c then ['_', c.toUpper] else [c.toUpper])

namespace Opcode

variable {ω : Type} [Opcode ω]

/-- The name of an opcode in listings. -/
def name (op : ω) : String :=
  capitalName (camelName op)

/-- The opcode that a byte stands for, if it stands for one. -/
def ofByte? (b : UInt8) : Option ω :=
  all.find? fun op => byte op == b

/-- The number of bytes of an instruction. -/
def width (op : ω) : Nat :=
  1 + (layout op).width

theorem width_pos (op : ω) : 0 < width op := by
  unfold width; omega

end Opcode

end Scriptlet
