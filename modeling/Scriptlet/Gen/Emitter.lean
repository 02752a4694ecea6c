import Scriptlet.Gen.Generate

/-! # Code generation in one pass

Here the chunk is written while the program is walked, and no code is kept besides it. The length of a
jump forwards is not known when the jump is written. So its operand is a placeholder first, which is
overwritten as soon as the code has come to where the jump leads. For this the walk remembers the
offset of the operand.
-/

namespace Scriptlet

/-- What is carried along while a chunk is written. The constants so far are those of the chunk. -/
structure Emitter (ν : Type) where
  chunk : Chunk
  /-- The source line of the bytes to come. -/
  line : Nat
  /-- What the target remembers of variables. -/
  vars : ν

/-- A step that may write to the chunk. -/
abbrev Emit (ν : Type) := StateT (Emitter ν) (Except GenError)

namespace Emit

variable {ω ν α : Type} [Opcode ω]

/-- Takes a step of code generation, on the line and with the constants of the emitter. -/
def step (m : Gen ν α) : Emit ν α := fun e => do
  let (a, s) ← m { line := e.line, pool := e.chunk.pool, vars := e.vars }
  return (a, { chunk := { e.chunk with pool := s.pool }, line := s.line, vars := s.vars })

/-- Uses the chunk; if that fails, then at the current source line. -/
def onChunk (use : Chunk → Except ChunkError (α × Chunk)) : Emit ν α := fun e =>
  match use e.chunk with
  | .ok (a, chunk) => .ok (a, { e with chunk })
  | .error failure => .error (.ofChunk failure e.line)

/-- The offset of the next byte. -/
def offset : Emit ν Nat :=
  return (← get).chunk.size

/-- Writes the code that a step gives. -/
def code (m : Gen ν (Code ω)) : Emit ν Unit := do
  let code ← step m
  onChunk fun c => return ((), ← c.writeCode code)

/-- Writes a byte and gives its offset. -/
def byte (value : UInt8) : Emit ν Nat := do
  let line := (← get).line
  onChunk fun c => c.write value line

/-- Writes a word and gives its offset. -/
def word (value : UInt16) : Emit ν Nat := do
  let line := (← get).line
  onChunk fun c => c.writeWord value line

/-- Writes a jump with a placeholder and gives the offset of its operand. -/
def openJump (op : ω) : Emit ν Nat := do
  let _ ← byte (Opcode.byte op)
  -- overwritten when the target is known
  word 0xFFFF

/-- The word for the operand of a jump, if it can hold the displacement. -/
def operandFor (op : ω) (displacement : Int) : Emit ν UInt16 := do
  let layout := Opcode.layout op
  if layout.fits displacement then return UInt16.ofInt (layout.stored displacement)
  else step (Gen.failHere (.jumpTooLarge (layout.stored displacement)))

/-- Overwrites the operand of a jump, which then leads to the target. -/
def pointTo (op : ω) (operand target : Nat) : Emit ν Unit := do
  -- a displacement counts from behind the operand
  let value ← operandFor op ((target : Int) - (operand + 2 : Nat))
  onChunk fun c => return ((), ← c.patchWord operand value)

/-- Overwrites the operand of a jump, which then leads to the next byte. -/
def closeJump (op : ω) (operand : Nat) : Emit ν Unit := do
  pointTo op operand (← offset)

end Emit

/-- What a target contributes to writing jumps. -/
structure JumpWriter (ν : Type) where
  /-- Writes a jump on a true condition, and gives the offset of the operand that is a placeholder. -/
  jumpIf : Emit ν Nat
  /-- Writes a jump back to an offset. -/
  loopBack : Nat → Emit ν Unit

namespace Backend

open Gen Emit

variable {ω ν : Type} [Opcode ω] (b : Backend ω ν) (w : JumpWriter ν)

/-- Writes the jump over the right operand of a logical operator. -/
def openShortCut : LogicalOp → Emit ν Nat
  | .and => openJump b.jumpUnless
  | .or => w.jumpIf

/-- The right operand of a logical operator ends at the next byte. -/
def closeShortCut : LogicalOp → Nat → Emit ν Unit
  | .and => closeJump b.jumpUnless
  | .or => closeJump b.jumpIf.2

/-- Writes an expression, and gives the kind of its value. -/
def emitExpr : Expr → Emit ν StaticKind
  | .literal line value => do
      step (setLine line)
      code (b.literal value)
      return .known value.kind
  | .group _ inner => emitExpr inner
  | .unary line op operand => do
      let kind ← emitExpr operand
      step (setLine line)
      match StaticKind.ofUnary? op kind with
      | none => throw (.invalidOperands (.unary op) [kind] line)
      | some result =>
          code (plain [b.unary op])
          return result
  | .binary line op left right => do
      let leftKind ← emitExpr left
      let rightKind ← emitExpr right
      step (setLine line)
      match StaticKind.ofBinary? b.strings op leftKind rightKind with
      | none => throw (.invalidOperands (.binary op) [leftKind, rightKind] line)
      | some result =>
          code (plain (b.binary op))
          return result
  | .ident line name => do
      step (setLine line)
      code (b.fetch name)
      return .unknown
  | .assign line name value => do
      let _ ← emitExpr value
      step (setLine line)
      code (b.store name)
      return .unknown
  | .logical line op left right => do
      let _ ← emitExpr left
      step (setLine line)
      code (plain b.keep)
      let toEnd ← b.openShortCut w op
      code (plain [b.pop])
      let _ ← emitExpr right
      step (setLine line)
      b.closeShortCut op toEnd
      return .unknown

mutual

/-- Writes a statement. -/
def emitStmt : Stmt → Emit ν Unit
  | .print line value => do
      let _ ← b.emitExpr w value
      step (setLine line)
      code (plain [b.print])
  | .expression line value => do
      let _ ← b.emitExpr w value
      step (setLine line)
      code (plain [b.pop])
  | .var line name (some initial) => do
      let _ ← b.emitExpr w initial
      step (setLine line)
      code (b.declare name)
  | .var line name none => do
      step (setLine line)
      code (instrs [b.unset])
      code (b.declare name)
  | .block line body => do
      step (setVars (b.enter (← step vars)))
      emitStmts body
      step (setLine line)
      let (count, outer) := b.leave (← step vars)
      step (setVars outer)
      code (plain (List.replicate count b.pop))
  | .ifThen line condition yes no => do
      let _ ← b.emitExpr w condition
      step (setLine line)
      let toElse ← openJump b.jumpUnless
      code (plain b.drop)
      emitStmt yes
      step (setLine line)
      let toEnd ← openJump b.jump
      -- a false condition leads here, behind the jump to the end
      closeJump b.jumpUnless toElse
      code (plain b.drop)
      match no with
      | none => pure ()
      | some no => do
          emitStmt no
          step (setLine line)
      closeJump b.jump toEnd
  | .whileDo line condition body => do
      -- the condition is evaluated again in each round
      let start ← offset
      let _ ← b.emitExpr w condition
      step (setLine line)
      let toEnd ← openJump b.jumpUnless
      code (plain b.drop)
      emitStmt body
      step (setLine line)
      w.loopBack start
      closeJump b.jumpUnless toEnd
      code (plain b.drop)

/-- Writes a sequence of statements. -/
def emitStmts : List Stmt → Emit ν Unit
  | [] => return
  | s :: rest => do
      emitStmt s
      emitStmts rest

end

/-- Writes to an empty chunk, and ends the code. -/
def emit (body : Emit ν Unit) : Except GenError Chunk := do
  let ended := do
    body
    code (plain [b.stop])
  let (_, e) ← ended { chunk := .empty, line := 1, vars := b.fresh }
  return e.chunk

end Backend

/-- The word machine has all jumps, and the one back to the start of a loop is like the others. -/
def WordOp.jumpWriter : JumpWriter WordVars where
  jumpIf := Emit.openJump jumpIf
  loopBack start := do
    let operand ← Emit.openJump jump
    Emit.pointTo jump operand start

/-- The pool machine has no jump on a true condition: a jump on a false one skips another jump. A jump
back has its operand at once. -/
def PoolOp.jumpWriter : JumpWriter PoolVars where
  jumpIf := do
    let skip ← Emit.openJump jumpIfFalse
    let operand ← Emit.openJump jump
    Emit.closeJump jumpIfFalse skip
    return operand
  loopBack start := do
    let _ ← Emit.byte (Opcode.byte loop)
    let behind := (← Emit.offset) + 2
    let value ← Emit.operandFor loop ((start : Int) - (behind : Nat))
    let _ ← Emit.word value

namespace Target

/-- The chunk of a program for a target, written in one pass. -/
def emit : Target → Program → Except GenError Chunk
  | word, p => WordOp.backend.emit (WordOp.backend.emitStmts WordOp.jumpWriter p)
  | pool, p => PoolOp.backend.emit (PoolOp.backend.emitStmts PoolOp.jumpWriter p)

/-- The chunk of an expression for a target, written in one pass. -/
def emitExpr : Target → Expr → Except GenError Chunk
  | word, e => WordOp.backend.emit (do let _ ← WordOp.backend.emitExpr WordOp.jumpWriter e)
  | pool, e => PoolOp.backend.emit (do let _ ← PoolOp.backend.emitExpr PoolOp.jumpWriter e)

end Target

end Scriptlet
