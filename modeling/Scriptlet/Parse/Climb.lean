import Scriptlet.Parse.Expression

/-! # Expressions by climbing

One parser for all levels of precedence. It reads an operand and extends it while the next connective
binds at least as tightly as asked for; the right operand of a connective is read one level tighter,
so connectives of one level group to the left. An equals sign that is left over behind an expression
has no variable for its target and is an error. The first error ends the parse.
-/

namespace Scriptlet.Parse

/-- An operand: what a single token stands for, an assignment where one is allowed, a unary operator
with its operand, or a group. -/
def operand (nested : Precedence → Parse Expr) (level : Precedence) : Parse Expr := do
  let t ← peek
  match Expr.ofToken? t, UnaryOp.ofToken? t.kind with
  | some (.ident line name), _ =>
      advance
      -- the operand of a connective is no target
      if level ≤ .assignment then
        match ← take? (.symbol .equal) with
        | some _ => return .assign line name (← nested .assignment)
        | none => return .ident line name
      else
        return .ident line name
  | some e, _ =>
      advance
      return e
  | none, some op =>
      advance
      return .unary t.line op (← nested .unary)
  | none, none =>
      if t.kind = .symbol .leftParen then
        advance
        let inner ← nested .assignment
        let _ ← closeGroup
        return .group t.line inner
      else
        noExpression

/-- Extends `left` by the connectives that bind at least as tightly as `level`. -/
def extend (nested : Precedence → Parse Expr) (level : Precedence) : Nat → Expr → Parse Expr
  | 0, left => return left
  | bound + 1, left => do
      match ← takeIf (Connective.ofLevelUp? level) with
      | some (op, line) =>
          -- connectives lean to the left, so their right operands are of the next level
          let right ← nested op.precedence.next
          extend nested level bound (op.join line left right)
      | none => return left

/-- Fails if an equals sign comes next. -/
def refuseAssignment : Parse Unit :=
  fun c =>
    if c.current.kind = .symbol .equal then .error (.invalidAssignment c.current.line) c
    else .ok () c

/-- An expression of at least the given level, nested less deep than `bound`. -/
def climb : Nat → Precedence → Parse Expr
  | 0, _ => noExpression
  | bound + 1, level => do
      let left ← operand (climb bound) level
      let e ← extend (climb bound) level (bound + 1) left
      -- the equals sign behind a lone name has been read with it
      if level ≤ .assignment then refuseAssignment
      return e

/-- One expression, with or without a semicolon behind it, and nothing more. An expression is kept
even if something follows it. -/
def loneExpression (bound : Nat) : Parse (Option Expr) := do
  match ← attempt (climb bound .assignment) with
  | .error e =>
      record e
      return none
  | .ok e =>
      let _ ← take? (.symbol .semicolon)
      let next ← peek
      if next.kind ≠ .endOfInput then
        record (.trailingToken next.describe next.line)
      return some e

end Parse

/-- Reads a single expression from a list of tokens, by precedence climbing. -/
def parseExpression (ts : List Token) : Parsed (Option Expr) :=
  match Parse.loneExpression (ts.length + 1) (.ofTokens ts) with
  | .ok e c => { result := e, errors := c.errors.toList }
  | .error e c => { result := none, errors := (c.record e).errors.toList }

/-- The expression of a successful parse, or the errors; a parse without either counts as an empty
input. -/
def Parsed.toExpr (p : Parsed (Option Expr)) : Except (List SyntaxError) Expr :=
  match p.toExcept with
  | .error es => .error es
  | .ok (some e) => .ok e
  | .ok none => .error [.expressionExpected TokenKind.endOfInput.name 1]

end Scriptlet
