import Scriptlet.Token.Lexeme

/-! # Scanning

A text is a sequence of lexemes with gaps between them. Gaps are blanks, line ends and comments from
`//` to the end of the line. A lexeme stands on the line on which it starts, and reading never stops
at an error: the characters in question are passed over and scanning goes on behind them.
-/

namespace Scriptlet

/-- A lexeme at its place: its text, its line and what it is read as. -/
structure Lexeme where
  text : String
  line : Nat
  reading : Reading
deriving DecidableEq, Repr

namespace Lexeme

/-- The token, if the lexeme is one. -/
def token? (l : Lexeme) : Option Token :=
  match l.reading with
  | .token kind literal => some { kind, lexeme := l.text, line := l.line, literal }
  | _ => none

/-- The error, if the lexeme is one. -/
def error? (l : Lexeme) : Option LexicalError :=
  match l.reading with
  | .token _ _ => none
  | .unexpected c => some (.unexpectedChar c l.line)
  | .unterminated => some (.unterminatedString l.line)
  | .tooLarge => some (.invalidNumber l.text l.line)

end Lexeme

/-- The lexemes of a text in order, and the line on which the text ends. -/
structure Scan where
  lexemes : List Lexeme
  endLine : Nat
deriving DecidableEq, Repr

namespace Scan

/-- A blank within a line. -/
def isBlank (c : Char) : Bool :=
  c == ' ' || c == '\t' || c == '\r'

/-- Scans the rest of a text, of which `line` is the current line and `found` holds the lexemes so
far, the last one first. -/
def go (line : Nat) (cs : List Char) (found : List Lexeme) : Scan :=
  match cs with
  | [] => { lexemes := found.reverse, endLine := line }
  | c :: rest =>
      if c = '\n' then go (line + 1) rest found
      else if isBlank c then go line rest found
      -- a comment leaves its line end to be counted
      else if c = '/' ∧ rest.head? = some '/' then go line (rest.dropWhile (· ≠ '\n')) found
      else
        let cut := Cut.read c rest
        have : cut.rest.length < (c :: rest).length := Cut.length_rest_lt c rest
        let lexeme := { text := String.ofList cut.text, line, reading := cut.reading }
        -- a string may go on over several lines, and is on the first of them
        go (line + cut.text.count '\n') cut.rest (lexeme :: found)
termination_by cs.length
decreasing_by
  · simp
  · simp
  · exact Nat.lt_succ_of_le ((List.dropWhile_suffix _).length_le)
  · assumption

/-- The tokens, closed by the mark for the end of the input. -/
def tokens (s : Scan) : List Token :=
  s.lexemes.filterMap Lexeme.token? ++ [Token.atEnd s.endLine]

/-- The errors, in the order of the text. -/
def errors (s : Scan) : List LexicalError :=
  s.lexemes.filterMap Lexeme.error?

end Scan

/-- Splits a text into its lexemes. Lines count from one. -/
def scan (source : String) : Scan :=
  Scan.go 1 source.toList []

end Scriptlet
