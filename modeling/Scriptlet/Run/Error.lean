import Scriptlet.Syntax.Operator

/-! # Runtime errors -/

namespace Scriptlet

/-- What can go wrong when a program runs. -/
inductive RuntimeError where
  | typeMismatch (op : BinaryOp) (left right : Kind) (line : Nat)
  /-- A unary operator on a value that is not a number. -/
  | invalidOperand (op : UnaryOp) (found : Kind) (line : Nat)
  | undefinedVariable (name : String) (line : Nat)
  | divisionByZero (line : Nat)
  /-- A binary operator on two values of one kind that it does not know. -/
  | unsupportedOperator (op : BinaryOp) (operand : Kind) (line : Nat)
  /-- An operator on nil. -/
  | missingOperand (op : Operator) (line : Nat)
  | integerOverflow (op : Operator) (line : Nat)
  /-- Output that the sink did not take. -/
  | sinkFull (line : Nat)
deriving DecidableEq, Repr

namespace RuntimeError

/-- The line to which an error is attributed. -/
def line : RuntimeError → Nat
  | typeMismatch _ _ _ line => line
  | invalidOperand _ _ line => line
  | undefinedVariable _ line => line
  | divisionByZero line => line
  | unsupportedOperator _ _ line => line
  | missingOperand _ line => line
  | integerOverflow _ line => line
  | sinkFull line => line

/-- The wording of an error. -/
def message : RuntimeError → String
  | typeMismatch op left right line =>
      s!"Type mismatch: cannot apply '{op.symbol}' to {left.name} and {right.name} at line {line}"
  | invalidOperand op found line =>
      s!"Operand of '{op.symbol}' must be a number, found {found.name} at line {line}"
  | undefinedVariable name line => s!"Undefined variable '{name}' at line {line}"
  | divisionByZero line => s!"Division by zero at line {line}"
  | unsupportedOperator op operand line =>
      s!"Unsupported operator '{op.symbol}' for {operand.name} at line {line}"
  | missingOperand op line => s!"Missing operand for '{op.symbol}' at line {line}"
  | integerOverflow op line => s!"Integer overflow in '{op.symbol}' at line {line}"
  | sinkFull line => s!"Failed to write output at line {line}: sink full"

end RuntimeError

end Scriptlet
