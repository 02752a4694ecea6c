import Scriptlet.Run.Operation
import Scriptlet.Syntax.Expr

/-! # Facts on operations

An operation fails for one of a few causes, on the line of the operation. Operations on other values
than doubles never give a double, and among such values three comparisons are the negation of another
one; among doubles they are not, because every order comparison with a NaN is false. Among integers,
arithmetic gives integers or fails, and every comparison gives a truth value.
-/

namespace Scriptlet

/-- Is the value none of the doubles? -/
def Value.Exact (v : Value) : Prop :=
  v.kind ≠ .double

/-! ## Causes of errors -/

/-- A result that does not fit is an overflow. -/
theorem exactInt_eq_error {op : Operator} {line : Nat} {n : Int} {e : RuntimeError}
    (h : exactInt op line n = .error e) : e = .integerOverflow op line := by
  unfold exactInt at h
  split at h
  · cases h
  · cases h
    rfl

/-- The three ways in which an operation on a value fails. -/
theorem UnaryOp.apply_eq_error {op : UnaryOp} {line : Nat} {v : Value} {e : RuntimeError}
    (h : op.apply line v = .error e) :
    e = .missingOperand (.unary op) line ∨ e = .invalidOperand op v.kind line ∨
      e = .integerOverflow (.unary op) line := by
  cases op with
  | not => cases h
  | negate =>
      cases v with
      | int n => exact .inr (.inr (exactInt_eq_error h))
      | double x => cases h
      -- a missing operand, where the other kinds are invalid ones
      | nil =>
          cases h
          exact .inl rfl
      | bool _ | string _ =>
          cases h
          exact .inr (.inl rfl)

namespace BinaryOp

/-- Integers fail to be divided by zero, or overflow. -/
theorem applyInt_eq_error {op : BinaryOp} {line : Nat} {m n : Int64} {e : RuntimeError}
    (h : op.applyInt line m n = .error e) :
    e = .divisionByZero line ∨ e = .integerOverflow (.binary op) line := by
  cases op with
  | add | subtract | multiply => exact .inr (exactInt_eq_error h)
  | divide =>
      simp only [applyInt] at h
      split at h
      · cases h
        exact .inl rfl
      · exact .inr (exactInt_eq_error h)
  | equal | notEqual | less | lessEqual | greater | greaterEqual => cases h

/-- Doubles only fail to be divided by zero. -/
theorem applyDouble_eq_error {op : BinaryOp} {line : Nat} {x y : Float} {e : RuntimeError}
    (h : op.applyDouble line x y = .error e) : e = .divisionByZero line := by
  cases op with
  | divide =>
      simp only [applyDouble] at h
      split at h
      · cases h
        rfl
      · cases h
  | add | subtract | multiply | equal | notEqual | less | lessEqual | greater | greaterEqual =>
      cases h

/-- A binary operation fails because it refuses its operands, divides by zero or overflows. -/
theorem apply_eq_error {op : BinaryOp} {line : Nat} {left right : Value} {e : RuntimeError}
    (h : op.apply line left right = .error e) :
    e = op.refusal line left right ∨ e = .divisionByZero line ∨
      e = .integerOverflow (.binary op) line := by
  unfold apply at h
  split at h
  · cases h
  · cases h
  · exact .inr (applyInt_eq_error h)
  · exact .inr (.inl (applyDouble_eq_error h))
  · cases h
  · cases h
    exact .inl rfl

end BinaryOp

/-! ## Lines of errors -/

/-- An operation on a value fails on the line of its operator. -/
theorem UnaryOp.apply_line {op : UnaryOp} {line : Nat} {v : Value} {e : RuntimeError}
    (h : op.apply line v = .error e) : e.line = line := by
  rcases apply_eq_error h with rfl | rfl | rfl <;> rfl

namespace BinaryOp

/-- Operands are refused on the line of the operator. -/
theorem refusal_line (op : BinaryOp) (line : Nat) (left right : Value) :
    (op.refusal line left right).line = line := by
  unfold refusal
  split
  · rfl
  · split <;> rfl

/-- An operation on two values fails on the line of its operator. -/
theorem apply_line {op : BinaryOp} {line : Nat} {left right : Value} {e : RuntimeError}
    (h : op.apply line left right = .error e) : e.line = line := by
  rcases apply_eq_error h with rfl | rfl | rfl
  · exact refusal_line ..
  · rfl
  · rfl

end BinaryOp

/-! ## Values other than doubles -/

theorem Value.exact_bool (b : Bool) : (Value.bool b).Exact := by
  rintro ⟨⟩

/-- An integer is no double. -/
theorem exactInt_exact {op : Operator} {line : Nat} {n : Int} {v : Value}
    (h : exactInt op line n = .ok v) : v.Exact := by
  unfold exactInt at h
  split at h
  · cases h
    rintro ⟨⟩
  · cases h

/-- An operation on a value makes no double of another value. -/
theorem UnaryOp.apply_exact {op : UnaryOp} {line : Nat} {v w : Value}
    (h : op.apply line v = .ok w) (hv : v.Exact) : w.Exact := by
  cases op with
  | not =>
      cases h
      exact Value.exact_bool _
  | negate =>
      cases v with
      | int n => exact exactInt_exact h
      | double x => exact absurd rfl hv
      | bool _ | string _ | nil => cases h

namespace BinaryOp

theorem applyInt_exact {op : BinaryOp} {line : Nat} {m n : Int64} {v : Value}
    (h : op.applyInt line m n = .ok v) : v.Exact := by
  cases op with
  | add | subtract | multiply => exact exactInt_exact h
  | divide =>
      simp only [applyInt] at h
      split at h
      · cases h
      · exact exactInt_exact h
  | equal | notEqual | less | lessEqual | greater | greaterEqual =>
      cases h
      exact Value.exact_bool _

/-- An operation on two values makes no double of others, as its operands are of one kind. -/
theorem apply_exact {op : BinaryOp} {line : Nat} {left right v : Value}
    (h : op.apply line left right = .ok v) (hleft : left.Exact) : v.Exact := by
  unfold apply at h
  split at h
  · cases h
    exact Value.exact_bool _
  · cases h
    exact Value.exact_bool _
  · exact applyInt_exact h
  · exact absurd rfl hleft
  · cases h
    rintro ⟨⟩
  · cases h

/-- The comparison of which a comparison is the negation. -/
def negated? : BinaryOp → Option BinaryOp
  | notEqual => some equal
  | greaterEqual => some less
  | lessEqual => some greater
  | _ => none

/-- Unless doubles are compared, a comparison is the negation of the other one, and fails where the
other one fails. -/
theorem apply_negated {op base : BinaryOp} (hop : op.negated? = some base) (line : Nat)
    {left : Value} (hleft : left.Exact) (right : Value) :
    (∃ b, base.apply line left right = .ok (.bool b) ∧
        op.apply line left right = .ok (.bool (!b))) ∨
      ((∃ e, base.apply line left right = .error e) ∧ ∃ e, op.apply line left right = .error e) := by
  cases op with
  | add | subtract | multiply | divide | equal | less | greater => cases hop
  | notEqual =>
      cases hop
      exact .inl ⟨_, rfl, rfl⟩
  | greaterEqual =>
      cases hop
      cases left with
      | int m =>
          cases right with
          | int n =>
              -- integers are ordered totally, which doubles are not
              have hle : decide (n.toInt ≤ m.toInt) = !decide (m.toInt < n.toInt) := by
                rw [← decide_not, decide_eq_decide, Int.not_lt]
              exact .inl ⟨decide (m.toInt < n.toInt), rfl, congrArg (Except.ok ∘ Value.bool) hle⟩
          | double _ | bool _ | string _ | nil => exact .inr ⟨⟨_, rfl⟩, ⟨_, rfl⟩⟩
      | double _ => exact absurd rfl hleft
      | bool _ | string _ | nil => exact .inr ⟨⟨_, rfl⟩, ⟨_, rfl⟩⟩
  | lessEqual =>
      cases hop
      cases left with
      | int m =>
          cases right with
          | int n =>
              have hle : decide (m.toInt ≤ n.toInt) = !decide (n.toInt < m.toInt) := by
                rw [← decide_not, decide_eq_decide, Int.not_lt]
              exact .inl ⟨decide (n.toInt < m.toInt), rfl, congrArg (Except.ok ∘ Value.bool) hle⟩
          | double _ | bool _ | string _ | nil => exact .inr ⟨⟨_, rfl⟩, ⟨_, rfl⟩⟩
      | double _ => exact absurd rfl hleft
      | bool _ | string _ | nil => exact .inr ⟨⟨_, rfl⟩, ⟨_, rfl⟩⟩

end BinaryOp

/-! ## Integers -/

theorem exactInt_int {op : Operator} {line : Nat} {n : Int} {v : Value}
    (h : exactInt op line n = .ok v) : ∃ w, v = .int w := by
  unfold exactInt at h
  split at h
  · cases h
    exact ⟨_, rfl⟩
  · cases h

namespace BinaryOp

/-- Arithmetic on integers gives an integer. -/
theorem applyInt_int {op : BinaryOp} (hop : op.isArithmetic = true) {line : Nat} {m n : Int64}
    {v : Value} (h : op.applyInt line m n = .ok v) : ∃ w, v = .int w := by
  cases op with
  | add | subtract | multiply => exact exactInt_int h
  | divide =>
      simp only [applyInt] at h
      split at h
      · cases h
      · exact exactInt_int h
  | equal | notEqual | less | lessEqual | greater | greaterEqual => cases hop

/-- Two integers are compared as integers. -/
theorem apply_int (op : BinaryOp) (line : Nat) (m n : Int64) :
    op.apply line (.int m) (.int n) = op.applyInt line m n := by
  cases op <;> rfl

/-- Comparing integers gives a truth value. -/
theorem apply_comparison {op : BinaryOp} (hop : op.isArithmetic = false) (line : Nat) (m n : Int64) :
    ∃ b, op.apply line (.int m) (.int n) = .ok (.bool b) := by
  rw [apply_int]
  cases op with
  | add | subtract | multiply | divide => cases hop
  | equal | notEqual | less | lessEqual | greater | greaterEqual => exact ⟨_, rfl⟩

end BinaryOp

/-! ## Expressions without doubles -/

/-- Is no literal of the expression a double? -/
def Expr.exact : Expr → Bool
  | .literal _ value => value.kind != .double
  | .group _ inner => inner.exact
  | .unary _ _ operand => operand.exact
  | .binary _ _ left right => left.exact && right.exact
  | .ident _ _ => true
  | .assign _ _ value => value.exact
  | .logical _ _ left right => left.exact && right.exact

end Scriptlet
