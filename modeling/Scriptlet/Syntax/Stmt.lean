import Scriptlet.Syntax.Expr

/-! # Statements and programs -/

namespace Scriptlet

/-- A statement, with the line on which it starts. -/
inductive Stmt where
  | print (line : Nat) (value : Expr)
  | expression (line : Nat) (value : Expr)
  | var (line : Nat) (name : String) (initial : Option Expr)
  | block (line : Nat) (body : List Stmt)
  | ifThen (line : Nat) (condition : Expr) (yes : Stmt) (no : Option Stmt)
  | whileDo (line : Nat) (condition : Expr) (body : Stmt)
deriving Repr

/-- A program is a sequence of statements. -/
abbrev Program := List Stmt

namespace Stmt

/-- The line on which a statement starts. -/
def line : Stmt → Nat
  | print line _ => line
  | expression line _ => line
  | var line _ _ => line
  | block line _ => line
  | ifThen line _ _ _ => line
  | whileDo line _ _ => line

mutual

/-- The expressions that stand in a statement, in source order. -/
def expressions : Stmt → List Expr
  | print _ value => [value]
  | expression _ value => [value]
  | var _ _ initial => initial.toList
  | block _ body => expressionsOfAll body
  | ifThen _ condition yes none => condition :: yes.expressions
  | ifThen _ condition yes (some no) => condition :: (yes.expressions ++ no.expressions)
  | whileDo _ condition body => condition :: body.expressions

/-- The expressions that stand in a sequence of statements. -/
def expressionsOfAll : List Stmt → List Expr
  | [] => []
  | s :: rest => s.expressions ++ expressionsOfAll rest

end

end Stmt

/-- The program that evaluates one expression. -/
def Program.ofExpr (e : Expr) : Program :=
  [.expression e.line e]

end Scriptlet
