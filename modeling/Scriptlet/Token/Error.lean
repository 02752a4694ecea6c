/-! # Lexical errors -/

namespace Scriptlet

/-- What can be wrong with the characters of a text. -/
inductive LexicalError where
  /-- A character that begins no token. -/
  | unexpectedChar (c : Char) (line : Nat)
  /-- A string without its closing quote, at the line of its opening quote. -/
  | unterminatedString (line : Nat)
  /-- An integer too large for 64 bits. -/
  | invalidNumber (text : String) (line : Nat)
deriving DecidableEq, Repr

namespace LexicalError

/-- The line to which an error is attributed. -/
def line : LexicalError → Nat
  | unexpectedChar _ line => line
  | unterminatedString line => line
  | invalidNumber _ line => line

/-- The wording of an error. -/
def message : LexicalError → String
  | unexpectedChar c line => s!"Unexpected character '{c}' at line {line}"
  | unterminatedString line => s!"Unterminated string at line {line}"
  | invalidNumber text line => s!"Invalid number '{text}' at line {line}"

end LexicalError

end Scriptlet
