import Scriptlet.Parse.Cursor
import Scriptlet.Parse.Precedence

/-! # Expressions by levels

One parser per level of precedence, each built from the next tighter one. An assignment is recognised
after its target has been read as an expression; a target that is no variable is noted as an error,
and parsing goes on as if the assignment had not been written.

Nested expressions are bounded by a depth, and so is the number of connectives on one level. Both
bounds are above the number of tokens wherever these parsers are used, so they are never reached.
-/

namespace Scriptlet.Parse

/-- Closes a group. -/
def closeGroup : Parse Token :=
  expect (.symbol .rightParen) (.missingClosingParen .grouping)

/-- A literal, a variable or a group around a `nested` expression. -/
def primary (nested : Parse Expr) : Parse Expr := do
  let t ← peek
  match Expr.ofToken? t with
  | some e =>
      advance
      return e
  | none =>
      if t.kind = .symbol .leftParen then
        advance
        let inner ← nested
        let _ ← closeGroup
        return .group t.line inner
      else
        noExpression

/-- Any number of unary operators in front of an operand. -/
def unary (operand : Parse Expr) : Nat → Parse Expr
  | 0 => operand
  | bound + 1 => do
      match ← takeIf UnaryOp.ofToken? with
      | some (op, line) => return .unary line op (← unary operand bound)
      | none => operand

/-- Extends `left` by the connectives of one level and their right operands. -/
def chain (level : Precedence) (operand : Parse Expr) : Nat → Expr → Parse Expr
  | 0, left => return left
  | bound + 1, left => do
      match ← takeIf (Connective.ofLevel? level) with
      | some (op, line) =>
          let right ← operand
          chain level operand bound (op.join line left right)
      | none => return left

/-- The levels of connectives, the loosest first, around an operand. -/
def levels (bound : Nat) (operand : Parse Expr) : List Precedence → Parse Expr
  | [] => operand
  | level :: tighter => do
      let left ← levels bound operand tighter
      chain level (levels bound operand tighter) bound left

/-- An assignment to a variable, or the expression that stands in the target's place. -/
def assignment (nested target : Parse Expr) : Parse Expr := do
  let e ← target
  match ← take? (.symbol .equal) with
  | none => return e
  | some line =>
      -- the value is read before the target is looked at, and its errors come first
      let value ← nested
      match e with
      | .ident line name => return .assign line name value
      | _ =>
          record (.invalidAssignment line)
          return e

/-- An expression nested less deep than `bound`. -/
def expression : Nat → Parse Expr
  | 0 => noExpression
  | bound + 1 =>
      let operand := unary (primary (expression bound)) (bound + 1)
      assignment (expression bound) (levels (bound + 1) operand Precedence.connectiveLevels)

end Scriptlet.Parse
