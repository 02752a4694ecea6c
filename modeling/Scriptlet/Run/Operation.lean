import Scriptlet.Run.Error

/-! # Operations on values

Integers are exact or refused: a result outside 64 bits is an error and never wraps. Doubles follow
IEEE 754, except that division by zero is an error. Operands of different kinds are never converted.
-/

namespace Scriptlet

/-- The 64-bit integer equal to a number, if there is one. -/
def exactInt? (n : Int) : Option Int64 :=
  if -0x8000000000000000 ≤ n ∧ n < 0x8000000000000000 then some (Int64.ofInt n) else none

/-- The integer value of a number, or an overflow in `op`. -/
def exactInt (op : Operator) (line : Nat) (n : Int) : Except RuntimeError Value :=
  match exactInt? n with
  | some n => .ok (.int n)
  | none => .error (.integerOverflow op line)

/-- Applies a unary operator. -/
def UnaryOp.apply (op : UnaryOp) (line : Nat) (v : Value) : Except RuntimeError Value :=
  match op, v with
  | .not, v => .ok (.bool (!v.truthy))
  -- the least integer has no negative
  | .negate, .int n => exactInt (.unary .negate) line (-n.toInt)
  | .negate, .double x => .ok (.double (-x))
  | .negate, .nil => .error (.missingOperand (.unary .negate) line)
  | .negate, v => .error (.invalidOperand .negate v.kind line)

namespace BinaryOp

/-- The error for operands that an operator does not take: nil is missing, two operands of one kind
are unsupported, and two of different kinds do not match. -/
def refusal (op : BinaryOp) (line : Nat) (left right : Value) : RuntimeError :=
  if left = .nil ∨ right = .nil then .missingOperand (.binary op) line
  else if left.kind = right.kind then .unsupportedOperator op left.kind line
  else .typeMismatch op left.kind right.kind line

/-- Applies an operator to two integers. Division goes toward zero. -/
def applyInt (op : BinaryOp) (line : Nat) (m n : Int64) : Except RuntimeError Value :=
  match op with
  | add => exactInt (.binary add) line (m.toInt + n.toInt)
  | subtract => exactInt (.binary subtract) line (m.toInt - n.toInt)
  | multiply => exactInt (.binary multiply) line (m.toInt * n.toInt)
  | divide =>
      if n = 0 then .error (.divisionByZero line)
      else exactInt (.binary divide) line (m.toInt.tdiv n.toInt)
  | equal => .ok (.bool (m == n))
  | notEqual => .ok (.bool (m != n))
  | less => .ok (.bool (decide (m.toInt < n.toInt)))
  | lessEqual => .ok (.bool (decide (m.toInt ≤ n.toInt)))
  | greater => .ok (.bool (decide (n.toInt < m.toInt)))
  | greaterEqual => .ok (.bool (decide (n.toInt ≤ m.toInt)))

/-- Applies an operator to two doubles. Every order comparison with a NaN is false. -/
def applyDouble (op : BinaryOp) (line : Nat) (x y : Float) : Except RuntimeError Value :=
  match op with
  | add => .ok (.double (x + y))
  | subtract => .ok (.double (x - y))
  | multiply => .ok (.double (x * y))
  | divide => if y == 0 then .error (.divisionByZero line) else .ok (.double (x / y))
  | equal => .ok (.bool (x == y))
  | notEqual => .ok (.bool (x != y))
  | less => .ok (.bool (decide (x < y)))
  | lessEqual => .ok (.bool (decide (x ≤ y)))
  | greater => .ok (.bool (decide (y < x)))
  | greaterEqual => .ok (.bool (decide (y ≤ x)))

/-- Applies a binary operator. -/
def apply (op : BinaryOp) (line : Nat) (left right : Value) : Except RuntimeError Value :=
  match op, left, right with
  | equal, left, right => .ok (.bool (left.same right))
  | notEqual, left, right => .ok (.bool (!left.same right))
  -- numbers of different kinds are not converted
  | op, .int m, .int n => applyInt op line m n
  | op, .double x, .double y => applyDouble op line x y
  | add, .string s, .string t => .ok (.string (s ++ t))
  | op, left, right => .error (op.refusal line left right)

end BinaryOp

/-- Does the left operand of a logical operator decide its value? -/
def LogicalOp.decidedBy (op : LogicalOp) (left : Value) : Bool :=
  match op with
  | .or => left.truthy
  | .and => !left.truthy

end Scriptlet
