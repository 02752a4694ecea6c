import Scriptlet.Code.WordOp
import Scriptlet.Gen.Backend
import Scriptlet.Scope

/-! # Code for the word machine

Variables live in slots, which are handed out in the order of declaration and never given to another
variable again. A variable of an inner block has a slot of its own, so the outer one of the same name
is as it was when the block ends. Only small integers and truth values have words.
-/

namespace Scriptlet

/-- The slots of the variables in scope, and the next free slot. -/
structure WordVars where
  scopes : Scopes Nat
  next : Nat

namespace WordVars

open Gen

/-- The number of slots: the last one that an operand could tell is never used. -/
def slotLimit : Nat := 65535

/-- The slot of a variable in scope. -/
def slot (name : String) : Gen WordVars Nat := do
  match (← vars).scopes.find? name with
  | some slot => return slot
  | none => failHere (.undefinedVariable name)

/-- The slot for a declaration: the one that the name already has in the innermost scope, or a new
one. -/
def allocate (name : String) : Gen WordVars Nat := do
  let v ← vars
  match v.scopes.inner[name]? with
  | some slot => return slot
  | none =>
      if v.next < slotLimit then
        setVars { scopes := v.scopes.define name v.next, next := v.next + 1 }
        return v.next
      else
        failHere .tooManyVariables

end WordVars

/-- The word of a literal, if it has one. -/
def Value.word? : Value → Option Int
  | .int n => if -32768 ≤ n.toInt ∧ n.toInt < 32768 then some n.toInt else none
  | .bool true => some 1
  | .bool false => some 0
  | _ => none

namespace WordOp

open Gen

/-- The instruction for a binary operator. -/
def ofBinary : BinaryOp → WordOp
  | .add => add
  | .subtract => sub
  | .multiply => mul
  | .divide => div
  | .equal => eq
  | .notEqual => neq
  | .greater => gt
  | .greaterEqual => ge
  | .less => lt
  | .lessEqual => le

/-- Code generation for the word machine. -/
def backend : Backend WordOp WordVars where
  fresh := { scopes := .empty, next := 0 }
  strings := false
  literal value := do
    match value.word? with
    | some word => instrs [(pushWord, word)]
    | none => failHere (.unknownLiteral value .word)
  -- no word stands for nil
  unset := (pushWord, 0)
  unary
    | .negate => negate
    | .not => not
  binary op := [ofBinary op]
  fetch name := do
    let slot ← WordVars.slot name
    instrs [(getVar, slot)]
  store name := do
    let slot ← WordVars.slot name
    -- an assignment has a value itself
    instrs [(dup, 0), (setVar, slot)]
  declare name := do
    let slot ← WordVars.allocate name
    instrs [(setVar, slot)]
  enter v := { v with scopes := v.scopes.enter }
  -- nothing is on the stack, and the slots are not used again
  leave v := (0, { v with scopes := v.scopes.leave })
  print := print
  pop := pop
  -- a jump takes the condition from the stack, so there is nothing to drop
  keep := [dup]
  drop := []
  jump := jump
  jumpUnless := jumpUnless
  jumpIf := ([], jumpIf)
  loop := jump
  stop := stopScript

end WordOp

end Scriptlet
