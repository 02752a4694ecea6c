/-! # Targets -/

namespace Scriptlet

/-- The machines for which code can be generated. -/
inductive Target where
  /-- The word machine: words, immediates and numbered slots. -/
  | word
  /-- The pool machine: constants, named globals and locals on the stack. -/
  | pool
deriving DecidableEq, Repr

namespace Target

/-- The name of a target, as listings and messages show it. -/
def name : Target → String
  | word => "Target-A"
  | pool => "Target-B"

/-- The target that a word names, in capitals or not. -/
def ofName? (word : String) : Option Target :=
  match word.toLower with
  | "a" | "target-a" => some .word
  | "b" | "target-b" => some .pool
  | _ => none

/-- The wording for a word that names no target. -/
def unknownMessage (word : String) : String :=
  s!"Unknown target '{word}', expected 'a' or 'b'"

end Target

end Scriptlet
