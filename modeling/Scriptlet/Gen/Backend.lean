import Scriptlet.Gen.Emit
import Scriptlet.Syntax.Stmt

/-! # From programs to code

One walk over the program serves all targets. It visits operands before operations, checks operand
kinds, attributes code to source lines and lays out control flow; a backend chooses instructions and
keeps track of variables.

Conditional jumps may take their condition from the stack or leave it there. A backend evens this out:
`keep` saves a condition that the jump would take, `drop` discards one that it has left.
-/

namespace Scriptlet

/-- What a target contributes to code generation. `ω` are its opcodes, and `ν` is what it remembers of
variables. -/
structure Backend (ω ν : Type) where
  /-- What is remembered before any variable is declared. -/
  fresh : ν
  /-- Does the machine know strings? -/
  strings : Bool
  /-- Pushes a literal. -/
  literal : Value → Gen ν (Code ω)
  /-- Pushes the value of a variable declared without one. -/
  unset : ω × Int
  unary : UnaryOp → ω
  binary : BinaryOp → List ω
  /-- Pushes the value of a variable. -/
  fetch : String → Gen ν (Code ω)
  /-- Assigns the value on the stack to a variable, and leaves it there. -/
  store : String → Gen ν (Code ω)
  /-- Declares a variable whose first value is on the stack. -/
  declare : String → Gen ν (Code ω)
  /-- Opens a scope. -/
  enter : ν → ν
  /-- Closes a scope, and says how many values it has left on the stack. -/
  leave : ν → Nat × ν
  print : ω
  pop : ω
  keep : List ω
  drop : List ω
  jump : ω
  jumpUnless : ω
  /-- A jump on a true condition: instructions that lead up to it, and the jump itself. -/
  jumpIf : List (ω × Int) × ω
  /-- The jump back to the start of a loop. -/
  loop : ω
  /-- The end of a program. -/
  stop : ω

namespace Backend

open Gen

variable {ω ν : Type} [Opcode ω] (b : Backend ω ν)

/-- A conditional jump over some code for the right operand of a logical operator: taken when the left
operand decides. -/
def shortCut (op : LogicalOp) (displacement : Int) : Gen ν (Code ω) :=
  match op with
  | .and => jumpBy b.jumpUnless displacement
  | .or => return (← instrs b.jumpIf.1) ++ (← jumpBy b.jumpIf.2 displacement)

/-- The code of an expression, which leaves its value on the stack, and the kind of that value. -/
def expr : Expr → Gen ν (StaticKind × Code ω)
  | .literal line value => do
      setLine line
      return (.known value.kind, ← b.literal value)
  | .group _ inner => expr inner
  | .unary line op operand => do
      let (kind, code) ← expr operand
      setLine line
      match StaticKind.ofUnary? op kind with
      | none => throw (.invalidOperands (.unary op) [kind] line)
      | some result => return (result, code ++ (← plain [b.unary op]))
  | .binary line op left right => do
      let (leftKind, leftCode) ← expr left
      let (rightKind, rightCode) ← expr right
      setLine line
      match StaticKind.ofBinary? b.strings op leftKind rightKind with
      | none => throw (.invalidOperands (.binary op) [leftKind, rightKind] line)
      | some result => return (result, leftCode ++ (rightCode ++ (← plain (b.binary op))))
  | .ident line name => do
      setLine line
      return (.unknown, ← b.fetch name)
  | .assign line name value => do
      let (_, code) ← expr value
      setLine line
      return (.unknown, code ++ (← b.store name))
  | .logical line op left right => do
      let (_, leftCode) ← expr left
      setLine line
      let keep ← plain b.keep
      let pop ← plain [b.pop]
      let (_, rightCode) ← expr right
      setLine line
      -- where the right operand is evaluated, the left one is dropped first
      let skipped := pop ++ rightCode
      let shortCut ← b.shortCut op (Code.size skipped)
      return (.unknown, [leftCode, keep, shortCut, skipped].flatten)

mutual

/-- The code of a statement, which leaves the stack as it was, except for declared variables. -/
def stmt : Stmt → Gen ν (Code ω)
  | .print line value => do
      let (_, code) ← b.expr value
      setLine line
      return code ++ (← plain [b.print])
  | .expression line value => do
      let (_, code) ← b.expr value
      setLine line
      return code ++ (← plain [b.pop])
  | .var line name (some initial) => do
      let (_, code) ← b.expr initial
      setLine line
      return code ++ (← b.declare name)
  | .var line name none => do
      setLine line
      let code ← instrs [b.unset]
      return code ++ (← b.declare name)
  | .block line body => do
      setVars (b.enter (← vars))
      let code ← stmts body []
      setLine line
      -- the variables of the block go with it, on the line where it begins
      let (count, outer) := b.leave (← vars)
      setVars outer
      return code ++ (← plain (List.replicate count b.pop))
  | .ifThen line condition yes no => do
      let (_, conditionCode) ← b.expr condition
      setLine line
      let drop ← plain b.drop
      let yesCode ← stmt yes
      setLine line
      let jumpWidth := Opcode.width b.jump
      -- a false condition leads over the jump behind the first branch
      let toElse ← jumpBy b.jumpUnless (Code.size (drop ++ yesCode) + jumpWidth)
      let noCode ← match no with
        | none => pure []
        | some no => do
            let code ← stmt no
            setLine line
            pure code
      -- without a second branch, there may still be a condition to drop
      let toEnd ← jumpBy b.jump (Code.size (drop ++ noCode))
      return [conditionCode, toElse, drop, yesCode, toEnd, drop, noCode].flatten
  | .whileDo line condition body => do
      let (_, conditionCode) ← b.expr condition
      setLine line
      let drop ← plain b.drop
      let bodyCode ← stmt body
      setLine line
      let loopWidth := Opcode.width b.loop
      let inside := Code.size (drop ++ bodyCode) + loopWidth
      -- the loop leads back over all of it, the jump itself included
      let around := Code.size conditionCode + Opcode.width b.jumpUnless + inside
      let again ← jumpBy b.loop (-(around : Int))
      let toEnd ← jumpBy b.jumpUnless inside
      return [conditionCode, toEnd, drop, bodyCode, again, drop].flatten

/-- The code of a sequence of statements; `done` holds the code of those in front of it, the last one
first. -/
def stmts : List Stmt → List (Code ω) → Gen ν (Code ω)
  | [], done => return done.reverse.flatten
  | s :: rest, done => do
      let code ← stmt s
      stmts rest (code :: done)

end

/-- Runs a step of code generation, ends its code, and writes it to a chunk. -/
def assemble (step : Gen ν (Code ω)) : Except GenError Chunk := do
  let ended := return (← step) ++ (← plain [b.stop])
  let (code, s) ← ended.run { line := 1, pool := #[], vars := b.fresh }
  -- lines are checked where they are set, so nothing is left to be refused here
  match Chunk.writeCode { Chunk.empty with pool := s.pool } code with
  | .ok chunk => return chunk
  | .error e => throw (.ofChunk e s.line)

/-- The chunk of a program. -/
def program (p : Program) : Except GenError Chunk :=
  b.assemble (b.stmts p [])

/-- The chunk of an expression, which leaves its value on the stack. -/
def expression (e : Expr) : Except GenError Chunk :=
  b.assemble (return (← b.expr e).2)

end Backend

end Scriptlet
