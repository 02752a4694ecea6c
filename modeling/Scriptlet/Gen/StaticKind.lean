import Scriptlet.Syntax.Operator

/-! # Static kinds

What is known of the kind of an operand before a program runs. Operations that can never succeed are
refused; where nothing is known, as with variables, the operation is let through.
-/

namespace Scriptlet

/-- The kind that every value of an expression has, as far as it is known. -/
inductive StaticKind where
  | known (kind : Kind)
  | unknown
deriving DecidableEq, Repr

namespace StaticKind

/-- The name of a static kind, as messages show it. -/
def name : StaticKind → String
  | known kind => kind.name
  | unknown => "unknown"

/-- Can the operand be a number? -/
def mayBeNumber : StaticKind → Bool
  | known .int | known .double | unknown => true
  | _ => false

/-- Can the operand be a string? -/
def mayBeString : StaticKind → Bool
  | known .string | unknown => true
  | _ => false

/-- Is one operand an integer and the other one a double? -/
def mixes : StaticKind → StaticKind → Bool
  | known .int, known .double => true
  | known .double, known .int => true
  | _, _ => false

/-- The kind of a unary operation, unless it can never succeed. -/
def ofUnary? (op : UnaryOp) (operand : StaticKind) : Option StaticKind :=
  match op with
  | .not => some (known .bool)
  | .negate => if operand.mayBeNumber then some operand else none

/-- Is the operation the joining of two strings? At least one of them must be known to be one. -/
def isConcatenation (op : BinaryOp) (left right : StaticKind) : Bool :=
  op == .add && left.mayBeString && right.mayBeString &&
    (left == known .string || right == known .string)

/-- The kind of a binary operation, unless it can never succeed. Strings can be joined only where
`strings` says that the machine knows them. -/
def ofBinary? (strings : Bool) (op : BinaryOp) (left right : StaticKind) : Option StaticKind :=
  if op = .equal ∨ op = .notEqual then some (known .bool)
  else if strings && isConcatenation op left right then some (known .string)
  else if !left.mayBeNumber || !right.mayBeNumber || mixes left right then none
  else if op.isComparison then some (known .bool)
  else some (if left = unknown then right else left)

end StaticKind

end Scriptlet
