import Scriptlet.Token.Basic

/-! # Operators -/

namespace Scriptlet

/-- Operators with one operand, written in front of it. -/
inductive UnaryOp where
  | negate
  | not
deriving DecidableEq, Repr

/-- Operators that evaluate both of their operands. -/
inductive BinaryOp where
  | add
  | subtract
  | multiply
  | divide
  | equal
  | notEqual
  | less
  | lessEqual
  | greater
  | greaterEqual
deriving DecidableEq, Repr

/-- Operators that evaluate their right operand only if the left one does not decide. -/
inductive LogicalOp where
  | and
  | or
deriving DecidableEq, Repr

namespace UnaryOp

/-- How an operator is written. -/
def symbol : UnaryOp → String
  | negate => "-"
  | not => "!"

/-- The operator that a token in front of an operand stands for. -/
def ofToken? : TokenKind → Option UnaryOp
  | .symbol .minus => some negate
  | .symbol .bang => some not
  | _ => none

end UnaryOp

namespace BinaryOp

/-- How an operator is written. -/
def symbol : BinaryOp → String
  | add => "+"
  | subtract => "-"
  | multiply => "*"
  | divide => "/"
  | equal => "=="
  | notEqual => "!="
  | less => "<"
  | lessEqual => "<="
  | greater => ">"
  | greaterEqual => ">="

/-- The operator that a token between two operands stands for. -/
def ofToken? : TokenKind → Option BinaryOp
  | .symbol .plus => some add
  | .symbol .minus => some subtract
  | .symbol .star => some multiply
  | .symbol .slash => some divide
  | .symbol .equalEqual => some equal
  | .symbol .bangEqual => some notEqual
  | .symbol .less => some less
  | .symbol .lessEqual => some lessEqual
  | .symbol .greater => some greater
  | .symbol .greaterEqual => some greaterEqual
  | _ => none

/-- Operators that compute a number. -/
def isArithmetic : BinaryOp → Bool
  | add | subtract | multiply | divide => true
  | _ => false

/-- Operators that ask for the order of their operands. -/
def isComparison : BinaryOp → Bool
  | less | lessEqual | greater | greaterEqual => true
  | _ => false

end BinaryOp

namespace LogicalOp

/-- How an operator is written. -/
def symbol : LogicalOp → String
  | and => "and"
  | or => "or"

/-- The operator that a token between two operands stands for. -/
def ofToken? : TokenKind → Option LogicalOp
  | .keyword .and_ => some and
  | .keyword .or_ => some or
  | _ => none

end LogicalOp

/-- An operator that fails on some operands, as error messages name it. -/
inductive Operator where
  | unary (op : UnaryOp)
  | binary (op : BinaryOp)
deriving DecidableEq, Repr

/-- How an operator is written. -/
def Operator.symbol : Operator → String
  | unary op => op.symbol
  | binary op => op.symbol

end Scriptlet
