import Std.Data.TreeMap
import Scriptlet.Code.PoolOp
import Scriptlet.Gen.Backend

/-! # Code for the pool machine

Variables declared outside all blocks are global and found by name; each name has one constant, however
often it is used. Variables declared in a block are slots of the stack, counted from its bottom: a
declaration leaves its value where it is, and the end of the block discards it. Every literal has a
constant of its own, except for nil and the truth values.
-/

namespace Scriptlet

/-- A variable in a block, and how many blocks are around it. -/
structure Local where
  name : String
  depth : Nat
deriving DecidableEq, Repr

/-- The variables in scope. -/
structure PoolVars where
  /-- The local variables in scope, the last one declared first. -/
  locals : List Local
  /-- The number of open blocks. -/
  depth : Nat
  /-- The constants of the names used so far. -/
  names : Std.TreeMap String Nat

namespace PoolVars

open Gen

/-- The slot of the last declared local variable of a name. -/
def slotOf? (name : String) : List Local → Option Nat
  | [] => none
  | l :: below => if l.name = name then some below.length else slotOf? name below

/-- As many local variables as one byte can tell apart. -/
def localLimit : Nat := 256

/-- The constant of a name. -/
def nameConstant (name : String) : Gen PoolVars Nat := do
  match (← vars).names[name]? with
  | some index => return index
  | none =>
      let index ← addConstant (.string name)
      let v ← vars
      setVars { v with names := v.names.insert name index }
      return index

/-- Makes the value on top of the stack a local variable. -/
def declareLocal (name : String) : Gen PoolVars Unit := do
  let v ← vars
  if v.locals.length < localLimit then
    setVars { v with locals := { name, depth := v.depth } :: v.locals }
  else
    failHere .tooManyLocals

/-- Forgets the local variables of the innermost block. -/
def leave (v : PoolVars) : Nat × PoolVars :=
  let depth := v.depth - 1
  -- the last declared variables are in front, so those of the innermost block are together
  let ended := fun (l : Local) => decide (depth < l.depth)
  ((v.locals.takeWhile ended).length, { v with locals := v.locals.dropWhile ended, depth })

end PoolVars

namespace PoolOp

open Gen

/-- The instructions for a binary operator; three comparisons are the negation of another. -/
def ofBinary : BinaryOp → List PoolOp
  | .add => [add]
  | .subtract => [subtract]
  | .multiply => [multiply]
  | .divide => [divide]
  | .equal => [equal]
  | .notEqual => [equal, not]
  | .greater => [greater]
  | .greaterEqual => [less, not]
  | .less => [less]
  | .lessEqual => [greater, not]

/-- An access to a variable, by one instruction for locals and another one for globals. -/
def access (onLocal onGlobal : PoolOp) (name : String) : Gen PoolVars (Code PoolOp) := do
  match PoolVars.slotOf? name (← vars).locals with
  | some slot => instrs [(onLocal, slot)]
  | none =>
      let index ← PoolVars.nameConstant name
      instrs [(onGlobal, index)]

/-- Code generation for the pool machine. -/
def backend : Backend PoolOp PoolVars where
  fresh := { locals := [], depth := 0, names := ∅ }
  strings := true
  literal
    | .bool true => plain [true_]
    | .bool false => plain [false_]
    | .nil => plain [nil]
    | value => do
        let index ← addConstant value
        instrs [(constant, index)]
  unset := (nil, 0)
  unary
    | .negate => negate
    | .not => not
  binary := ofBinary
  fetch := access getLocal getGlobal
  store := access setLocal setGlobal
  declare name := do
    if 0 < (← vars).depth then
      PoolVars.declareLocal name
      -- the value on top of the stack is the variable from now on
      return []
    else
      let index ← PoolVars.nameConstant name
      instrs [(defineGlobal, index)]
  enter v := { v with depth := v.depth + 1 }
  leave := PoolVars.leave
  print := print
  pop := pop
  -- a jump leaves the condition on the stack, and what follows has to drop it
  keep := []
  drop := [pop]
  jump := jump
  jumpUnless := jumpIfFalse
  -- there is only a jump on a false condition: it skips a jump
  jumpIf := ([(jumpIfFalse, Opcode.width jump)], jump)
  loop := loop
  stop := return_

end PoolOp

end Scriptlet
