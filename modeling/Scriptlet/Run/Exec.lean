import Scriptlet.Run.Eval
import Scriptlet.Run.Sink
import Scriptlet.Syntax.Stmt

/-! # Executing statements

A session holds the variables and the output. Executing a statement changes the session, and what was
done before an error stays done; only the scope of a block is left on every way out of the block.

Loops need not end, so each of them runs for at most a given number of rounds. A run that reaches this
bound is `unfinished`, which is not an error of the program: with a larger bound it goes on.
-/

namespace Scriptlet

/-- The variables and the output of an interpreter. -/
structure Session where
  scopes : Scopes Value
  sink : Sink

/-- The session before anything has run. -/
def Session.start (sink : Sink) : Session :=
  { scopes := .empty, sink }

/-- Why execution stops before its end. -/
inductive Halt where
  | error (e : RuntimeError)
  | unfinished
deriving DecidableEq, Repr

/-- A step of execution. -/
abbrev Exec := EStateM Halt Session

namespace Exec

variable {α : Type}

/-- A step of evaluation as a step of execution. -/
def ofEval (m : Eval α) : Exec α :=
  fun { scopes, sink } =>
    match m scopes with
    | .ok a scopes => .ok a { scopes, sink }
    | .error e scopes => .error (.error e) { scopes, sink }

/-- Binds a variable in the innermost scope. -/
def define (name : String) (v : Value) : Exec Unit :=
  fun { scopes, sink } => .ok () { scopes := scopes.define name v, sink }

/-- Prints a value and a line end. -/
def printLine (line : Nat) (v : Value) : Exec Unit :=
  fun { scopes, sink } =>
    match sink.write (v.text ++ "\n").toUTF8 with
    | (true, sink) => .ok () { scopes, sink }
    -- what had room is in the sink all the same
    | (false, sink) => .error (.error (.sinkFull line)) { scopes, sink }

/-- Runs a step in a scope of its own, and leaves that scope however the step ends. -/
def inScope (step : Exec α) : Exec α :=
  fun { scopes, sink } =>
    match step { scopes := scopes.enter, sink } with
    | .ok a { scopes, sink } => .ok a { scopes := scopes.leave, sink }
    | .error e { scopes, sink } => .error e { scopes := scopes.leave, sink }

/-- Repeats a step while a condition holds, for at most `bound` rounds. -/
def repeatWhile (condition : Exec Bool) (step : Exec Unit) : (bound : Nat) → Exec Unit
  | 0 => throw .unfinished
  | bound + 1 => do
      if ← condition then
        step
        repeatWhile condition step bound

/-- Does the value of an expression count as true? -/
def holds (e : Expr) : Exec Bool :=
  return (← ofEval e.eval).truthy

end Exec

mutual

/-- Executes a statement. -/
def Stmt.exec (bound : Nat) : Stmt → Exec Unit
  | .print line value => do
      let v ← Exec.ofEval value.eval
      Exec.printLine line v
  | .expression _ value => do
      let _ ← Exec.ofEval value.eval
  | .var _ name none => Exec.define name .nil
  | .var _ name (some initial) => do
      let v ← Exec.ofEval initial.eval
      Exec.define name v
  | .block _ body => Exec.inScope (Stmt.execAll bound body)
  | .ifThen _ condition yes none => do
      if ← Exec.holds condition then yes.exec bound
  | .ifThen _ condition yes (some no) => do
      if ← Exec.holds condition then yes.exec bound else no.exec bound
  | .whileDo _ condition body => Exec.repeatWhile (Exec.holds condition) (body.exec bound) bound

/-- Executes statements one after the other. -/
def Stmt.execAll (bound : Nat) : List Stmt → Exec Unit
  | [] => pure ()
  | s :: rest => do
      s.exec bound
      Stmt.execAll bound rest

end

namespace Exec

variable {α : Type}

/-- Runs a step to its end: the result or the error, and the session afterwards; nothing, if a loop
has reached its bound. -/
def finish (step : Exec α) (s : Session) : Option (Except RuntimeError α × Session) :=
  match step s with
  | .ok a s => some (.ok a, s)
  | .error (.error e) s => some (.error e, s)
  | .error .unfinished _ => none

end Exec

/-- Runs a program in a session. -/
def Session.run (s : Session) (bound : Nat) (p : Program) :
    Option (Except RuntimeError Unit × Session) :=
  (Stmt.execAll bound p).finish s

/-- Evaluates an expression in a session. -/
def Session.eval (s : Session) (e : Expr) : Except RuntimeError Value × Session :=
  match e.eval s.scopes with
  | .ok v scopes => (.ok v, { s with scopes })
  | .error e scopes => (.error e, { s with scopes })

/-- Runs a program in a session, and gives the value of the expression statement at its end; nil, if
it does not end in one. -/
def Session.runForValue (s : Session) (bound : Nat) (p : Program) :
    Option (Except RuntimeError Value × Session) :=
  match p.getLast? with
  | some (.expression _ e) =>
      -- the last statement is not executed as well, or its effects would come twice
      Exec.finish (do Stmt.execAll bound p.dropLast; Exec.ofEval e.eval) s
  | _ => Exec.finish (do Stmt.execAll bound p; return .nil) s

end Scriptlet
