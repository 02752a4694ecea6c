import Scriptlet.Run.Operation
import Scriptlet.Scope
import Scriptlet.Syntax.Expr

/-! # Evaluating expressions

Operands are evaluated from left to right, and an assignment takes effect at once: it stays in effect
when a later part of the same expression fails.
-/

namespace Scriptlet

/-- A step of evaluation reads and rebinds variables. -/
abbrev Eval := EStateM RuntimeError (Scopes Value)

namespace Eval

/-- The value of a variable. -/
def fetch (name : String) (line : Nat) : Eval Value :=
  fun scopes =>
    match scopes.find? name with
    | some v => .ok v scopes
    | none => .error (.undefinedVariable name line) scopes

/-- Assigns to a variable that exists. -/
def store (name : String) (line : Nat) (v : Value) : Eval Unit :=
  fun scopes =>
    match scopes.assign? name v with
    | some scopes => .ok () scopes
    | none => .error (.undefinedVariable name line) scopes

/-- An operation on values as a step of evaluation. -/
def ofExcept {α : Type} : Except RuntimeError α → Eval α
  | .ok a => pure a
  | .error e => throw e

end Eval

/-- The value of an expression. -/
def Expr.eval : Expr → Eval Value
  | literal _ value => pure value
  | group _ inner => inner.eval
  | unary line op operand => do
      let v ← operand.eval
      Eval.ofExcept (op.apply line v)
  | binary line op left right => do
      let l ← left.eval
      let r ← right.eval
      Eval.ofExcept (op.apply line l r)
  | ident line name => Eval.fetch name line
  | assign line name value => do
      let v ← value.eval
      Eval.store name line v
      return v
  | logical _ op left right => do
      let l ← left.eval
      if op.decidedBy l then return l else right.eval

end Scriptlet
