import Scriptlet.Gen.Generate
import Scriptlet.Parse.Climb
import Scriptlet.Parse.Statement
import Scriptlet.Run.Exec
import Scriptlet.Token.Scan

/-! # From source text to code or to output

The stages put together. Each stage gets what the one before it gives, and the first stage that fails
ends the work; lexical errors come in one batch, and so do syntax errors.

Where a program runs, loops are bounded, and the answer is `none` if a loop reaches its bound.
-/

namespace Scriptlet

/-- Why a source text could not be compiled or run. -/
inductive CompileError where
  | lexical (es : List LexicalError)
  | syntactic (es : List SyntaxError)
  | runtime (e : RuntimeError)
  | codegen (e : GenError)
  | disassembly (e : DecodeError)
deriving DecidableEq, Repr

namespace CompileError

/-- The wording of a batch of errors: their number and the first of them. -/
def batchMessage (what : String) (messages : List String) : String :=
  s!"{messages.length} {what} error(s), first: " ++ messages.headD "none"

/-- The wording of an error. -/
def message : CompileError → String
  | lexical es => batchMessage "lexical" (es.map LexicalError.message)
  | syntactic es => batchMessage "syntax" (es.map SyntaxError.message)
  | runtime e => "Runtime error: " ++ e.message
  | codegen e => "Codegen error: " ++ e.message
  | disassembly e => "Disassembly error: " ++ e.message

end CompileError

/-- How tokens are parsed. -/
inductive Strategy where
  /-- A program, by recursive descent. -/
  | descent
  /-- A single expression, by precedence climbing. -/
  | climbing
deriving DecidableEq, Repr

/-- How a source text is compiled. -/
structure Config where
  strategy : Strategy := .descent
  target : Target := .pool
  /-- Run the program before code is generated, and fail if it does. -/
  check : Bool := false
deriving DecidableEq, Repr

/-- The tokens of a source text. -/
def tokenize (source : String) : Except CompileError (List Token) :=
  let s := scan source
  if s.errors.isEmpty then .ok s.tokens else .error (.lexical s.errors)

/-- The program of a list of tokens. -/
def Strategy.parseTokens (strategy : Strategy) (ts : List Token) : Except CompileError Program :=
  match strategy with
  | descent => (parseProgram ts).toExcept.mapError .syntactic
  | climbing => (parseExpression ts).toExpr.mapError .syntactic |>.map Program.ofExpr

/-- The program of a source text. -/
def Strategy.parse (strategy : Strategy) (source : String) : Except CompileError Program := do
  strategy.parseTokens (← tokenize source)

/-- The code of a program. -/
def Target.compile (target : Target) (p : Program) : Except CompileError Chunk :=
  (target.generate p).mapError .codegen

/-- The code of a source text. -/
def Config.compile (config : Config) (bound : Nat) (source : String) :
    Option (Except CompileError Chunk) :=
  match config.strategy.parse source with
  | .error e => some (.error e)
  | .ok p =>
      if config.check then
        match (Session.start .unlimited).run bound p with
        | none => none
        | some (.error e, _) => some (.error (.runtime e))
        | some (.ok (), _) => some (config.target.compile p)
      else
        some (config.target.compile p)

/-- The code of a source text that is a single expression; it leaves the expression's value on the
stack. -/
def Target.compileExpr (target : Target) (source : String) : Except CompileError Chunk := do
  let ts ← tokenize source
  let e ← (parseExpression ts).toExpr.mapError .syntactic
  (target.generateExpr e).mapError .codegen

/-- Runs a source text, with output to a sink. -/
def Strategy.interpret (strategy : Strategy) (bound : Nat) (sink : Sink) (source : String) :
    Option (Except CompileError Unit × Sink) :=
  match strategy.parse source with
  | .error e => some (.error e, sink)
  | .ok p =>
      ((Session.start sink).run bound p).map fun (result, s) =>
        (result.mapError .runtime, s.sink)

/-- Runs a source text, with output to a sink, for the value of the expression statement at its end. -/
def Strategy.evaluate (strategy : Strategy) (bound : Nat) (sink : Sink) (source : String) :
    Option (Except CompileError Value × Sink) :=
  match strategy.parse source with
  | .error e => some (.error e, sink)
  | .ok p =>
      ((Session.start sink).runForValue bound p).map fun (result, s) =>
        (result.mapError .runtime, s.sink)

end Scriptlet
