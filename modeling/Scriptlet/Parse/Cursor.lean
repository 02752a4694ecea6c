import Scriptlet.Parse.Error

/-! # Reading tokens one by one

A cursor holds the tokens that are still to be read, up to the first mark for the end of the input,
and the errors recorded so far. A parser moves the cursor; when it fails, the cursor stays where the
failure was found, so that reading can go on from there.
-/

namespace Scriptlet

/-- A place in a sequence of tokens. -/
structure Cursor where
  /-- The tokens still to be read. -/
  rest : List Token
  /-- The line on which the input ends. -/
  endLine : Nat
  /-- How many tokens have been read. -/
  position : Nat
  /-- The errors recorded so far, in order. -/
  errors : Array SyntaxError
deriving DecidableEq, Repr

namespace Cursor

/-- The cursor in front of a list of tokens. The input ends at the first end mark; without one it
ends on the line of the last token, or on the first line if there is no token at all. -/
def ofTokens (ts : List Token) : Cursor :=
  let body := ts.takeWhile (·.kind ≠ .endOfInput)
  { rest := body
    endLine :=
      match ts.dropWhile (·.kind ≠ .endOfInput) with
      | mark :: _ => mark.line
      | [] => (body.getLast?.map Token.line).getD 1
    position := 0
    errors := #[] }

/-- The next token, or the mark for the end of the input. -/
def current (c : Cursor) : Token :=
  c.rest.head?.getD (Token.atEnd c.endLine)

/-- The cursor behind the next token. -/
def advance (c : Cursor) : Cursor :=
  match c.rest with
  | [] => c
  | _ :: rest => { c with rest, position := c.position + 1 }

/-- The cursor with one more error recorded. -/
def record (c : Cursor) (e : SyntaxError) : Cursor :=
  { c with errors := c.errors.push e }

end Cursor

/-- A parser reads from a cursor. It gives a result or fails with an error, and leaves the cursor at
the place it has reached in either case. -/
abbrev Parse := EStateM SyntaxError Cursor

namespace Parse

variable {α : Type}

/-- The next token, which stays to be read. -/
def peek : Parse Token :=
  fun c => .ok c.current c

/-- Passes over the next token. -/
def advance : Parse Unit :=
  fun c => .ok () c.advance

/-- Notes an error without failing. -/
def record (e : SyntaxError) : Parse Unit :=
  fun c => .ok () (c.record e)

/-- Reads the next token if `f` gives its kind a meaning: that meaning and the token's line. -/
def takeIf (f : TokenKind → Option α) : Parse (Option (α × Nat)) :=
  fun c =>
    match c.rest with
    | [] => .ok none c
    | t :: _ =>
        match f t.kind with
        | none => .ok none c
        | some a => .ok (some (a, t.line)) c.advance

/-- Reads the next token if it is of the given kind, and gives its line. -/
def take? (kind : TokenKind) : Parse (Option Nat) :=
  fun c =>
    match c.rest with
    | [] => .ok none c
    | t :: _ => if t.kind = kind then .ok (some t.line) c.advance else .ok none c

/-- Reads a token of the given kind, or fails with the error made from the token found instead. -/
def expect (kind : TokenKind) (error : String → Nat → SyntaxError) : Parse Token :=
  fun c =>
    -- the mark for the end is no token that could be read
    if c.rest ≠ [] ∧ c.current.kind = kind then .ok c.current c.advance
    else .error (error c.current.describe c.current.line) c

/-- Fails because no expression starts with the next token. -/
def noExpression : Parse α :=
  fun c => .error (.expressionExpected c.current.describe c.current.line) c

/-- Runs a parser and turns its failure into a result. -/
def attempt (p : Parse α) : Parse (Except SyntaxError α) :=
  fun c =>
    match p c with
    | .ok a c => .ok (.ok a) c
    | .error e c => .ok (.error e) c

end Parse

/-- What parsing gives: as much as could be understood, and the errors in the order they were found. -/
structure Parsed (α : Type) where
  result : α
  errors : List SyntaxError
deriving Repr

namespace Parsed

variable {α : Type}

/-- The result, unless there were errors. -/
def toExcept (p : Parsed α) : Except (List SyntaxError) α :=
  if p.errors.isEmpty then .ok p.result else .error p.errors

end Parsed

end Scriptlet
