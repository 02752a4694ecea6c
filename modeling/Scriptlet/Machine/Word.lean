import Std.Data.TreeMap
import Scriptlet.Code.Record
import Scriptlet.Code.WordOp
import Scriptlet.Machine.Basic
import Scriptlet.Run.Operation

/-! # The word machine

What the instructions of the word machine mean. Its values are integers; arithmetic is exact or fails,
comparisons and negation give one or zero, and a word counts as false if it is zero.
-/

namespace Scriptlet

/-- The word machine between two instructions. -/
structure WordMachine where
  /-- The offset of the next instruction. -/
  pc : Nat
  /-- The stack, the top first. -/
  stack : List Int64
  /-- The variables that have been set, by slot. -/
  slots : Std.TreeMap Int Int64
  output : ByteArray

namespace WordMachine

open Machine

/-- The machine before its first instruction. -/
def start : WordMachine :=
  { pc := 0, stack := [], slots := ∅, output := .empty }

/-- The word of a truth value. -/
def ofBool (b : Bool) : Int64 :=
  if b then 1 else 0

/-- The word that stands for a value, if the machine knows the value. -/
def ofValue? : Value → Option Int64
  | .int n => some n
  | .bool b => some (ofBool b)
  | _ => none

/-- Goes on behind an instruction with another stack. -/
def goOn (m : WordMachine) (r : Record WordOp) (stack : List Int64) : Progress WordMachine :=
  .next { m with pc := r.next, stack }

/-- Jumps where an instruction leads. -/
def jump (m : WordMachine) (r : Record WordOp) : Progress WordMachine :=
  match r.target? with
  | some pc => .next { m with pc }
  | none => .failed

/-- Goes on behind an instruction with the word of a result on top of the stack. -/
def result (m : WordMachine) (r : Record WordOp) (below : List Int64)
    (v : Except RuntimeError Value) : Progress WordMachine :=
  match v.toOption.bind ofValue? with
  | some word => m.goOn r (word :: below)
  | none => .failed

/-- Replaces two words on top of the stack by the result of an operator on them. -/
def binary (m : WordMachine) (r : Record WordOp) (op : BinaryOp) : Progress WordMachine :=
  match m.stack with
  | right :: left :: below => m.result r below (op.apply r.line.toNat (.int left) (.int right))
  | _ => .failed

/-- Carries out an instruction. -/
def perform (m : WordMachine) (r : Record WordOp) : Progress WordMachine :=
  match r.op, m.stack with
  | .pushWord, stack => m.goOn r (Int64.ofInt r.instr.arg :: stack)
  | .getVar, stack =>
      match m.slots[r.instr.arg]? with
      | some word => m.goOn r (word :: stack)
      | none => .failed
  | .setVar, word :: below =>
      { m with slots := m.slots.insert r.instr.arg word }.goOn r below
  | .add, _ => m.binary r .add
  | .sub, _ => m.binary r .subtract
  | .mul, _ => m.binary r .multiply
  | .div, _ => m.binary r .divide
  | .eq, _ => m.binary r .equal
  | .neq, _ => m.binary r .notEqual
  | .gt, _ => m.binary r .greater
  | .ge, _ => m.binary r .greaterEqual
  | .lt, _ => m.binary r .less
  | .le, _ => m.binary r .lessEqual
  | .negate, word :: below => m.result r below (UnaryOp.negate.apply r.line.toNat (.int word))
  | .not, word :: below => m.goOn r (ofBool (word == 0) :: below)
  | .pop, _ :: below => m.goOn r below
  | .dup, word :: below => m.goOn r (word :: word :: below)
  | .print, word :: below =>
      { m with output := m.output ++ ((Value.int word).text ++ "\n").toUTF8 }.goOn r below
  | .jump, _ => m.jump r
  -- the condition is taken from the stack in any case
  | .jumpUnless, word :: below =>
      if word == 0 then { m with stack := below }.jump r else m.goOn r below
  | .jumpIf, word :: below =>
      if word == 0 then m.goOn r below else { m with stack := below }.jump r
  | .stopScript, _ => .stopped
  -- an operand is missing
  | _, _ => .failed

/-- Carries out the next instruction of a chunk. -/
def step (c : Chunk) (m : WordMachine) : Progress WordMachine :=
  match c.decodeAt m.pc with
  | .ok r => m.perform r
  | .error _ => .failed

/-- Runs a chunk from its beginning, for at most `steps` steps. -/
def exec (c : Chunk) (steps : Nat) : Ending × WordMachine :=
  run (step c) steps start

end WordMachine

end Scriptlet
