import Scriptlet.Value.Basic

/-! # Tokens

The words of the language: punctuation and operator symbols, keywords, names, literals, and the mark
for the end of the input. A token keeps the text it was read from and the line on which that text
starts; number and string tokens also keep the value they denote.
-/

namespace Scriptlet

/-- Punctuation and operators. -/
inductive Symbol where
  | leftParen
  | rightParen
  | leftBrace
  | rightBrace
  | comma
  | dot
  | minus
  | plus
  | semicolon
  | slash
  | star
  | bang
  | bangEqual
  | equal
  | equalEqual
  | greater
  | greaterEqual
  | less
  | lessEqual
deriving DecidableEq, Repr

/-- How a symbol is written. -/
def Symbol.text : Symbol → String
  | leftParen => "("
  | rightParen => ")"
  | leftBrace => "\x7b"
  | rightBrace => "\x7d"
  | comma => ","
  | dot => "."
  | minus => "-"
  | plus => "+"
  | semicolon => ";"
  | slash => "/"
  | star => "*"
  | bang => "!"
  | bangEqual => "!="
  | equal => "="
  | equalEqual => "=="
  | greater => ">"
  | greaterEqual => ">="
  | less => "<"
  | lessEqual => "<="

/-- Reserved words. Some are reserved only for later use. -/
inductive Keyword where
  | and_
  | class_
  | else_
  | false_
  | for_
  | fun_
  | if_
  | nil_
  | or_
  | print_
  | return_
  | super_
  | this_
  | true_
  | var_
  | while_
deriving DecidableEq, Repr

namespace Keyword

/-- How a keyword is written. -/
def text : Keyword → String
  | and_ => "and"
  | class_ => "class"
  | else_ => "else"
  | false_ => "false"
  | for_ => "for"
  | fun_ => "fun"
  | if_ => "if"
  | nil_ => "nil"
  | or_ => "or"
  | print_ => "print"
  | return_ => "return"
  | super_ => "super"
  | this_ => "this"
  | true_ => "true"
  | var_ => "var"
  | while_ => "while"

/-- All keywords, in alphabetical order. -/
def all : List Keyword :=
  [and_, class_, else_, false_, for_, fun_, if_, nil_, or_, print_, return_, super_, this_, true_,
    var_, while_]

/-- The keyword that a word spells, if it spells one. -/
def ofWord? (word : String) : Option Keyword :=
  all.find? fun k => k.text = word

/-- The keywords that begin a statement; parsing resumes in front of them after an error. -/
def startsStatement : Keyword → Bool
  | class_ | fun_ | var_ | for_ | if_ | while_ | print_ | return_ => true
  | _ => false

/-- Every keyword is read back from its own spelling. -/
theorem ofWord?_text (k : Keyword) : ofWord? k.text = some k := by
  cases k <;> decide

/-- A word that spells a keyword is that keyword's spelling. -/
theorem text_of_ofWord? {word : String} {k : Keyword} (h : ofWord? word = some k) :
    k.text = word := by
  have := List.find?_some h
  simpa using this

end Keyword

/-- The kinds of tokens. -/
inductive TokenKind where
  | symbol (s : Symbol)
  | keyword (k : Keyword)
  | identifier
  | string
  | number
  | endOfInput
deriving DecidableEq, Repr

namespace TokenKind

/-- The name of a kind, as messages show it. -/
def name : TokenKind → String
  | symbol s => s.text
  | keyword k => k.text
  | identifier => "identifier"
  | string => "string"
  | number => "number"
  | endOfInput => "end of input"

/-- Does a token of this kind begin a statement? -/
def startsStatement : TokenKind → Bool
  | keyword k => k.startsStatement
  | _ => false

end TokenKind

/-- A word of the language as it stands in a text. -/
structure Token where
  kind : TokenKind
  lexeme : String
  line : Nat
  literal : Option Value
deriving DecidableEq, Repr

namespace Token

/-- The mark for the end of the input. -/
def atEnd (line : Nat) : Token :=
  { kind := .endOfInput, lexeme := "", line, literal := none }

/-- How error messages refer to a token that they found. -/
def describe (t : Token) : String :=
  match t.kind with
  | .endOfInput => TokenKind.endOfInput.name
  | _ => t.lexeme

end Token

end Scriptlet
