import Scriptlet.Decimal.Style

/-! # Values

What expressions evaluate to and what constant pools hold: 64-bit integers, double-precision
numbers, truth values, strings and nil. Every value has a kind, and every value has a text.
-/

namespace Scriptlet

/-- The kinds of values. -/
inductive Kind where
  | int
  | double
  | bool
  | string
  | nil
deriving DecidableEq, Repr

/-- The name of a kind, as messages show it. -/
def Kind.name : Kind → String
  | .int => "int"
  | .double => "double"
  | .bool => "bool"
  | .string => "string"
  | .nil => "nil"

/-- A value of the language. -/
inductive Value where
  | int (n : Int64)
  | double (x : Float)
  | bool (b : Bool)
  | string (s : String)
  | nil
deriving DecidableEq, Repr

namespace Value

/-- The kind of a value. -/
def kind : Value → Kind
  | int _ => .int
  | double _ => .double
  | bool _ => .bool
  | string _ => .string
  | nil => .nil

/-- Nil and `false` are false; every other value is true, zero and the empty string included. -/
def truthy : Value → Bool
  | bool b => b
  | nil => false
  | _ => true

/-- The language's own equality: values of different kinds differ, and doubles compare as numbers, so
that the two zeros are equal and a NaN differs from itself. -/
def same : Value → Value → Bool
  | int m, int n => m == n
  | double x, double y => x == y
  | bool b, bool c => b == c
  | string s, string t => s == t
  | nil, nil => true
  | _, _ => false

/-- Doubles are positional from a ten-thousandth up to sixteen digits before the point. -/
def doubleStyle : Decimal.Style := { lowest := -4, highest := 15 }

/-- The text of a value; a string stands for itself. -/
def text : Value → String
  | int n => toString n.toInt
  | double x => doubleStyle.float x
  | bool true => "true"
  | bool false => "false"
  | string s => s
  | nil => "nil"

/-- The text of a value in source form, where strings are quoted. -/
def sourceText : Value → String
  | string s => "\"" ++ s ++ "\""
  | v => v.text

end Value

/-! ## Access by kind -/

/-- A value was asked for as another kind than its own. -/
structure KindMismatch where
  expected : Kind
  found : Kind
deriving DecidableEq, Repr

/-- The wording of a mismatch. -/
def KindMismatch.message (e : KindMismatch) : String :=
  "Expected " ++ e.expected.name ++ ", found " ++ e.found.name

namespace Value

/-- The number of an integer value. -/
def asInt : Value → Except KindMismatch Int64
  | int n => .ok n
  | v => .error { expected := .int, found := v.kind }

/-- The number of a double value. -/
def asDouble : Value → Except KindMismatch Float
  | double x => .ok x
  | v => .error { expected := .double, found := v.kind }

/-- The truth value of a Boolean value. -/
def asBool : Value → Except KindMismatch Bool
  | bool b => .ok b
  | v => .error { expected := .bool, found := v.kind }

/-- The characters of a string value. -/
def asString : Value → Except KindMismatch String
  | string s => .ok s
  | v => .error { expected := .string, found := v.kind }

end Value

end Scriptlet
