import Scriptlet.Parse.Expression
import Scriptlet.Syntax.Stmt

/-! # Statements and programs

A declaration that cannot be read is recorded as an error, and reading resumes at the next boundary
between statements: behind a semicolon, or in front of a keyword that starts a statement or of a
brace. So one mistake costs one statement, and every declaration reads at least one token.
-/

namespace Scriptlet.Parse

/-- The semicolon behind a clause. -/
def semicolon (after : Clause) : Parse Unit := do
  let _ ← expect (.symbol .semicolon) (.missingSemicolon after)

/-- The condition of an `if` or a `while`. -/
def condition (bound : Nat) (keyword : Keyword) : Parse Expr := do
  let _ ← expect (.symbol .leftParen) (.missingOpeningParen keyword)
  let e ← expression bound
  let _ ← expect (.symbol .rightParen) (.missingClosingParen .condition)
  return e

/-- A variable declaration; the next token is its keyword. -/
def varDeclaration (bound : Nat) : Parse Stmt := do
  let keyword ← peek
  advance
  let name ← expect .identifier .missingVariableName
  let initial ← match ← take? (.symbol .equal) with
    | some _ => some <$> expression bound
    | none => pure none
  semicolon .variableDeclaration
  return .var keyword.line name.lexeme initial

/-- Is a statement boundary in front of a token of this kind? -/
def isBoundary (kind : TokenKind) : Bool :=
  kind.startsStatement || kind == .symbol .leftBrace || kind == .symbol .rightBrace

/-- The place of the next boundary, counted on from `position`, and the tokens behind it. The first
token is no boundary unless something of the failed declaration has been `read` before it. -/
def skipToBoundary (read : Bool) (position : Nat) : List Token → Nat × List Token
  | [] => (position, [])
  | t :: rest =>
      -- the semicolon of the failed declaration is passed over, and a boundary is not
      if t.kind = .symbol .semicolon then (position + 1, rest)
      else if read && isBoundary t.kind then (position, t :: rest)
      else skipToBoundary true (position + 1) rest

/-- Resumes reading at the next boundary, after a declaration that began at `start` has failed. -/
def resync (start : Nat) : Parse Unit :=
  fun c =>
    let (position, rest) := skipToBoundary (decide (start < c.position)) c.position c.rest
    .ok () { c with rest, position }

/-- One declaration or statement; nothing, if it cannot be read. -/
def declaration (bound : Nat) (statement : Parse Stmt) : Parse (Option Stmt) := do
  let start := (← get).position
  let first ← peek
  let read ← attempt
    (if first.kind = .keyword .var_ then varDeclaration bound else statement)
  match read with
  | .ok s => return some s
  | .error e =>
      -- what cannot be read is left out, and reading goes on behind it
      record e
      resync start
      return none

/-- Declarations up to a token that `stops` them or the end of the input; `found` holds those read so
far, the last one first. -/
def declarations (stops : TokenKind → Bool) (declaration : Parse (Option Stmt)) :
    Nat → List Stmt → Parse (List Stmt)
  | 0, found => return found.reverse
  | bound + 1, found => do
      let next ← peek
      if next.kind = .endOfInput ∨ stops next.kind then
        return found.reverse
      else
        let s ← declaration
        declarations stops declaration bound (s.toList ++ found)

/-- A statement nested less deep than `bound`. -/
def statement : Nat → Parse Stmt
  | 0 => noExpression
  | bound + 1 => do
      let first ← peek
      match first.kind with
      | .keyword .print_ =>
          advance
          let value ← expression (bound + 1)
          semicolon .value
          return .print first.line value
      | .keyword .if_ =>
          advance
          let condition ← condition (bound + 1) .if_
          let yes ← statement bound
          -- an `else` belongs to the `if` that is read at the moment, which is the nearest one
          match ← take? (.keyword .else_) with
          | some _ => return .ifThen first.line condition yes (some (← statement bound))
          | none => return .ifThen first.line condition yes none
      | .keyword .while_ =>
          advance
          let condition ← condition (bound + 1) .while_
          return .whileDo first.line condition (← statement bound)
      | .symbol .leftBrace =>
          advance
          let body ← declarations (· == .symbol .rightBrace)
            (declaration (bound + 1) (statement bound)) (bound + 1) []
          let _ ← expect (.symbol .rightBrace) .missingBrace
          return .block first.line body
      | _ =>
          let e ← expression (bound + 1)
          semicolon .expression
          -- no keyword tells the line
          return .expression e.line e

/-- All declarations up to the end of the input. -/
def program (bound : Nat) : Parse Program :=
  declarations (fun _ => false) (declaration bound (statement bound)) bound []

end Parse

/-- Reads a program from a list of tokens, by recursive descent. -/
def parseProgram (ts : List Token) : Parsed Program :=
  match Parse.program (ts.length + 1) (.ofTokens ts) with
  | .ok program c => { result := program, errors := c.errors.toList }
  | .error e c => { result := [], errors := (c.record e).errors.toList }

end Scriptlet
