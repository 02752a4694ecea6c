import Scriptlet.Token.Basic

/-! # Syntax errors

An error names what was expected and, as the scanner would write it, the token that was found
instead, at the line of that token.
-/

namespace Scriptlet

/-- What a semicolon has to close. -/
inductive Clause where
  | variableDeclaration
  | value
  | expression
deriving DecidableEq, Repr

/-- The name of a clause, as messages show it. -/
def Clause.name : Clause → String
  | variableDeclaration => "variable declaration"
  | value => "value"
  | expression => "expression"

/-- What stands between parentheses. -/
inductive Enclosure where
  | grouping
  | condition
deriving DecidableEq, Repr

/-- The name of an enclosure, as messages show it. -/
def Enclosure.name : Enclosure → String
  | grouping => "grouping"
  | condition => "condition"

/-- What can be wrong with a sequence of tokens. -/
inductive SyntaxError where
  | expressionExpected (found : String) (line : Nat)
  | missingSemicolon (after : Clause) (found : String) (line : Nat)
  | missingClosingParen (enclosure : Enclosure) (found : String) (line : Nat)
  | missingOpeningParen (keyword : Keyword) (found : String) (line : Nat)
  | missingBrace (found : String) (line : Nat)
  | missingVariableName (found : String) (line : Nat)
  /-- Something other than a variable stands to the left of an equals sign. -/
  | invalidAssignment (line : Nat)
  /-- Tokens follow behind a complete expression. -/
  | trailingToken (found : String) (line : Nat)
deriving DecidableEq, Repr

namespace SyntaxError

/-- The line to which an error is attributed. -/
def line : SyntaxError → Nat
  | expressionExpected _ line => line
  | missingSemicolon _ _ line => line
  | missingClosingParen _ _ line => line
  | missingOpeningParen _ _ line => line
  | missingBrace _ line => line
  | missingVariableName _ line => line
  | invalidAssignment line => line
  | trailingToken _ line => line

/-- The wording of an error. -/
def message : SyntaxError → String
  | expressionExpected found line => s!"Expected expression, found '{found}' at line {line}"
  | missingSemicolon after found line =>
      s!"Expected ';' after {after.name}, found '{found}' at line {line}"
  | missingClosingParen enclosure found line =>
      s!"Expected ')' to close {enclosure.name}, found '{found}' at line {line}"
  | missingOpeningParen keyword found line =>
      s!"Expected '(' after '{keyword.text}', found '{found}' at line {line}"
  | missingBrace found line =>
      s!"Expected '\x7d' after block, found '{found}' at line {line}"
  | missingVariableName found line =>
      s!"Expected variable name after 'var', found '{found}' at line {line}"
  | invalidAssignment line => s!"Invalid assignment target at line {line}"
  | trailingToken found line =>
      s!"Unexpected token '{found}', expected end of expression at line {line}"

end SyntaxError

end Scriptlet
