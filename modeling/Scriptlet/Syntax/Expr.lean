import Scriptlet.Syntax.Operator

/-! # Expressions

Every node carries the line of the token it was built from: the operator of an operation, the opening
parenthesis of a group, the name of a variable. Prefix notation shows the shape of an expression.
-/

namespace Scriptlet

/-- An expression. -/
inductive Expr where
  | literal (line : Nat) (value : Value)
  | group (line : Nat) (inner : Expr)
  | unary (line : Nat) (op : UnaryOp) (operand : Expr)
  | binary (line : Nat) (op : BinaryOp) (left right : Expr)
  | ident (line : Nat) (name : String)
  | assign (line : Nat) (name : String) (value : Expr)
  | logical (line : Nat) (op : LogicalOp) (left right : Expr)
deriving DecidableEq, Repr

namespace Expr

/-- The line of the outermost node. -/
def line : Expr → Nat
  | literal line _ => line
  | group line _ => line
  | unary line _ _ => line
  | binary line _ _ _ => line
  | ident line _ => line
  | assign line _ _ => line
  | logical line _ _ _ => line

/-- Prefix notation: operations and groups are parenthesised with their sign in front, strings are
quoted, and lines are left out. -/
def prefixText : Expr → String
  | literal _ value => value.sourceText
  | group _ inner => "(group " ++ inner.prefixText ++ ")"
  | unary _ op operand => "(" ++ op.symbol ++ " " ++ operand.prefixText ++ ")"
  | binary _ op left right =>
      "(" ++ op.symbol ++ " " ++ left.prefixText ++ " " ++ right.prefixText ++ ")"
  | ident _ name => name
  | assign _ name value => "(= " ++ name ++ " " ++ value.prefixText ++ ")"
  | logical _ op left right =>
      "(" ++ op.symbol ++ " " ++ left.prefixText ++ " " ++ right.prefixText ++ ")"

end Expr

end Scriptlet
