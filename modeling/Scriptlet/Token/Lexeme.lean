import Scriptlet.Text.Letter
import Scriptlet.Text.Numeral
import Scriptlet.Token.Basic
import Scriptlet.Token.Error

/-! # Lexemes

The longest piece of text at some place that the lexical grammar allows, and what it is read as.
`Cut.read` never looks back and always takes at least one character; `Cut.text_append_rest` says that
nothing of the text is lost.
-/

namespace Scriptlet

/-- A character that can begin a name. -/
def isNameStart (c : Char) : Bool :=
  c == '_' || Text.isLetter c

/-- A character that can continue a name. -/
def isNameChar (c : Char) : Bool :=
  c == '_' || Text.isLetter c || Text.isNumeral c

/-- The number that decimal digits denote. -/
def digitsValue (digits : List Char) : Nat :=
  digits.foldl (fun n c => 10 * n + (c.toNat - '0'.toNat)) 0

/-- The double nearest to `whole.fraction`, both given by their digits. -/
def fractionValue (whole fraction : List Char) : Float :=
  -- all digits are rounded at once
  Float.ofScientific (digitsValue (whole ++ fraction)) true fraction.length

/-- What a piece of text is read as: a token of some kind, or an error. -/
inductive Reading where
  | token (kind : TokenKind) (literal : Option Value)
  | unexpected (c : Char)
  | unterminated
  | tooLarge
deriving DecidableEq, Repr

/-- A text cut behind its first lexeme: the lexeme with its reading, and the rest. -/
structure Cut where
  text : List Char
  rest : List Char
  reading : Reading
deriving DecidableEq, Repr

namespace Cut

/-- A symbol of one character. -/
def one (c : Char) (rest : List Char) (symbol : Symbol) : Cut :=
  { text := [c], rest, reading := .token (.symbol symbol) none }

/-- A symbol of one character, or of two when an equals sign follows. -/
def oneOrTwo (c : Char) (rest : List Char) (alone followed : Symbol) : Cut :=
  match rest with
  | '=' :: rest => { text := [c, '='], rest, reading := .token (.symbol followed) none }
  | rest => one c rest alone

/-- A string, read from behind its opening quote. -/
def readString (rest : List Char) : Cut :=
  let body := rest.takeWhile (· ≠ '"')
  match rest.dropWhile (· ≠ '"') with
  | [] => { text := '"' :: body, rest := [], reading := .unterminated }
  | quote :: rest =>
      { text := '"' :: body ++ [quote]
        rest
        reading := .token .string (some (.string (String.ofList body))) }

/-- An integer literal, if 64 bits can hold it. -/
def integer (digits : List Char) : Reading :=
  if digitsValue digits < Nat.pow 2 63 then
    .token .number (some (.int (Int64.ofNat (digitsValue digits))))
  else
    .tooLarge

/-- A number that starts with the digit `c`. A point belongs to it only in front of a digit. -/
def readNumber (c : Char) (rest : List Char) : Cut :=
  let whole := c :: rest.takeWhile Char.isDigit
  match rest.dropWhile Char.isDigit with
  | '.' :: d :: rest =>
      if d.isDigit then
        let fraction := d :: rest.takeWhile Char.isDigit
        { text := whole ++ '.' :: fraction
          rest := rest.dropWhile Char.isDigit
          reading := .token .number (some (.double (fractionValue whole fraction))) }
      else
        -- the point is a lexeme of its own
        { text := whole, rest := '.' :: d :: rest, reading := integer whole }
  | rest => { text := whole, rest, reading := integer whole }

/-- A name or a keyword that starts with `c`. -/
def readWord (c : Char) (rest : List Char) : Cut :=
  let word := c :: rest.takeWhile isNameChar
  { text := word
    rest := rest.dropWhile isNameChar
    reading :=
      match Keyword.ofWord? (String.ofList word) with
      | some k => .token (.keyword k) none
      | none => .token .identifier none }

/-- The longest lexeme of a text that starts with `c` and is neither blank nor a comment there. -/
def read (c : Char) (rest : List Char) : Cut :=
  match c with
  | '(' => one c rest .leftParen
  | ')' => one c rest .rightParen
  | '\x7b' => one c rest .leftBrace
  | '\x7d' => one c rest .rightBrace
  | ',' => one c rest .comma
  | '.' => one c rest .dot
  | '-' => one c rest .minus
  | '+' => one c rest .plus
  | ';' => one c rest .semicolon
  -- no comment, as those have been passed over
  | '/' => one c rest .slash
  | '*' => one c rest .star
  | '!' => oneOrTwo c rest .bang .bangEqual
  | '=' => oneOrTwo c rest .equal .equalEqual
  | '<' => oneOrTwo c rest .less .lessEqual
  | '>' => oneOrTwo c rest .greater .greaterEqual
  | '"' => readString rest
  | _ =>
      if c.isDigit then readNumber c rest
      else if isNameStart c then readWord c rest
      else { text := [c], rest, reading := .unexpected c }

/-! ## Nothing is lost -/

/-- A symbol of one or two characters and what is behind it are the whole text. -/
@[simp]
theorem oneOrTwo_text_append_rest (c : Char) (rest : List Char) (alone followed : Symbol) :
    (oneOrTwo c rest alone followed).text ++ (oneOrTwo c rest alone followed).rest = c :: rest := by
  unfold oneOrTwo
  split <;> rfl

@[simp]
theorem readString_text_append_rest (rest : List Char) :
    (readString rest).text ++ (readString rest).rest = '"' :: rest := by
  have h := List.takeWhile_append_dropWhile (p := (· ≠ '"')) (l := rest)
  unfold readString
  cases hd : rest.dropWhile (· ≠ '"') with
  | nil => rw [hd] at h; simpa using h
  | cons quote behind => rw [hd] at h; simpa using h

@[simp]
theorem readNumber_text_append_rest (c : Char) (rest : List Char) :
    (readNumber c rest).text ++ (readNumber c rest).rest = c :: rest := by
  have h := List.takeWhile_append_dropWhile (p := Char.isDigit) (l := rest)
  unfold readNumber
  split
  next hd => rw [hd] at h; split <;> simpa using h
  next => simp

@[simp]
theorem readWord_text_append_rest (c : Char) (rest : List Char) :
    (readWord c rest).text ++ (readWord c rest).rest = c :: rest := by
  simp [readWord]

/-- A lexeme and the text behind it are the text it was read from. -/
theorem text_append_rest (c : Char) (rest : List Char) :
    (read c rest).text ++ (read c rest).rest = c :: rest := by
  unfold read
  repeat' split
  all_goals simp [one]

theorem read_text_ne_nil (c : Char) (rest : List Char) : (read c rest).text ≠ [] := by
  unfold read one oneOrTwo one readString readNumber readWord
  repeat' split
  all_goals simp

/-- Reading a lexeme takes at least one character. -/
theorem length_rest_lt (c : Char) (rest : List Char) :
    (read c rest).rest.length < (c :: rest).length := by
  have h := congrArg List.length (text_append_rest c rest)
  have := List.length_pos_iff.2 (read_text_ne_nil c rest)
  simp only [List.length_append] at h
  omega

end Cut

end Scriptlet
