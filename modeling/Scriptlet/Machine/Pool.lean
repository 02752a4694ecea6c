import Std.Data.TreeMap
import Scriptlet.Code.PoolOp
import Scriptlet.Code.Record
import Scriptlet.Machine.Basic
import Scriptlet.Run.Operation

/-! # The pool machine

What the instructions of the pool machine mean. Its values and its operations are those of the
language, and local variables are counted from the bottom of the stack.
-/

namespace Scriptlet

/-- The pool machine between two instructions. -/
structure PoolMachine where
  /-- The offset of the next instruction. -/
  pc : Nat
  /-- The stack, the top first. -/
  stack : List Value
  globals : Std.TreeMap String Value
  output : ByteArray

namespace PoolMachine

open Machine

/-- The machine before its first instruction. -/
def start : PoolMachine :=
  { pc := 0, stack := [], globals := ∅, output := .empty }

/-- The value in a slot, counted from the bottom of the stack. -/
def slot? (slot : Nat) : List Value → Option Value
  | [] => none
  | v :: below => if below.length = slot then some v else slot? slot below

/-- The stack with another value in a slot, if it has that slot. -/
def setSlot? (slot : Nat) (value : Value) : List Value → Option (List Value)
  | [] => none
  | v :: below =>
      if below.length = slot then some (value :: below)
      else (setSlot? slot value below).map (v :: ·)

/-- Goes on behind an instruction with another stack. -/
def goOn (m : PoolMachine) (r : Record PoolOp) (stack : List Value) : Progress PoolMachine :=
  .next { m with pc := r.next, stack }

/-- Jumps where an instruction leads. -/
def jump (m : PoolMachine) (r : Record PoolOp) : Progress PoolMachine :=
  match r.target? with
  | some pc => .next { m with pc }
  | none => .failed

/-- Replaces two values on top of the stack by the result of an operator on them. -/
def binary (m : PoolMachine) (r : Record PoolOp) (op : BinaryOp) : Progress PoolMachine :=
  match m.stack with
  | right :: left :: below =>
      match op.apply r.line.toNat left right with
      | .ok v => m.goOn r (v :: below)
      | .error _ => .failed
  | _ => .failed

/-- Replaces the value on top of the stack by the result of an operator on it. -/
def unary (m : PoolMachine) (r : Record PoolOp) (op : UnaryOp) : Progress PoolMachine :=
  match m.stack with
  | operand :: below =>
      match op.apply r.line.toNat operand with
      | .ok v => m.goOn r (v :: below)
      | .error _ => .failed
  | [] => .failed

/-- Carries out an instruction. -/
def perform (m : PoolMachine) (r : Record PoolOp) : Progress PoolMachine :=
  match r.op, r.constant, m.stack with
  | .constant, some v, stack => m.goOn r (v :: stack)
  | .nil, _, stack => m.goOn r (.nil :: stack)
  | .true_, _, stack => m.goOn r (.bool true :: stack)
  | .false_, _, stack => m.goOn r (.bool false :: stack)
  | .pop, _, _ :: below => m.goOn r below
  | .getLocal, _, stack =>
      match slot? r.instr.arg.toNat stack with
      | some v => m.goOn r (v :: stack)
      | none => .failed
  | .setLocal, _, v :: below =>
      match setSlot? r.instr.arg.toNat v (v :: below) with
      | some stack => m.goOn r stack
      | none => .failed
  | .getGlobal, some (.string name), stack =>
      match m.globals[name]? with
      | some v => m.goOn r (v :: stack)
      | none => .failed
  | .defineGlobal, some (.string name), v :: below =>
      { m with globals := m.globals.insert name v }.goOn r below
  | .setGlobal, some (.string name), v :: below =>
      if m.globals.contains name then
        { m with globals := m.globals.insert name v }.goOn r (v :: below)
      else
        .failed
  | .equal, _, _ => m.binary r .equal
  | .greater, _, _ => m.binary r .greater
  | .less, _, _ => m.binary r .less
  | .add, _, _ => m.binary r .add
  | .subtract, _, _ => m.binary r .subtract
  | .multiply, _, _ => m.binary r .multiply
  | .divide, _, _ => m.binary r .divide
  | .not, _, _ => m.unary r .not
  | .negate, _, _ => m.unary r .negate
  | .print, _, v :: below =>
      { m with output := m.output ++ (v.text ++ "\n").toUTF8 }.goOn r below
  | .jump, _, _ => m.jump r
  | .loop, _, _ => m.jump r
  -- the condition stays on the stack
  | .jumpIfFalse, _, v :: below => if v.truthy then m.goOn r (v :: below) else m.jump r
  | .return_, _, _ => .stopped
  -- an operand is missing, or the constant is no name
  | _, _, _ => .failed

/-- Carries out the next instruction of a chunk. -/
def step (c : Chunk) (m : PoolMachine) : Progress PoolMachine :=
  match c.decodeAt m.pc with
  | .ok r => m.perform r
  | .error _ => .failed

/-- Runs a chunk from its beginning, for at most `steps` steps. -/
def exec (c : Chunk) (steps : Nat) : Ending × PoolMachine :=
  run (step c) steps start

end PoolMachine

end Scriptlet
