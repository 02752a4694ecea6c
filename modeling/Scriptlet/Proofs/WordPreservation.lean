import Scriptlet.Gen.Generate
import Scriptlet.Proofs.Descent
import Scriptlet.Proofs.WordSimulation

/-! # Code for the word machine keeps the meaning of integer programs

The code of a statement is followed under the scopes that the generator knows in front of it. Slots are
handed out in the order of the text and not of the run, so a loop runs its body in the same slots again
and again, and a branch that is not taken has used up slots as well. What counts is that scopes come out
of a statement as they went in, but for declarations in the innermost one; then the slots of variables
in scope are the same on every way through a conditional and in every round of a loop.
-/

namespace Scriptlet

open Machine

namespace WordOp

open WordMachine WordVars Gen

/-! ## Scopes of the generator -/

/-- A declaration sets the slot that is allocated. -/
theorem declare_ok {name : String} {s t : GenState WordVars} {code : Code WordOp}
    (h : backend.declare name s = .ok (code, t)) :
    ∃ n : Nat, allocate name s = .ok (n, t) ∧ code = Code.onLine s.line [(setVar, (n : Int))] := by
  obtain ⟨n, u, hslot, hcode⟩ := bind_eq_ok.mp h
  cases instrs_eq_ok.mp hcode
  refine ⟨n, hslot, ?_⟩
  rcases allocate_ok hslot with ⟨-, rfl⟩ | ⟨-, -, -, rfl⟩ <;> rfl

/-- A declaration changes the innermost scope only. -/
theorem declare_outer {name : String} {s t : GenState WordVars} {code : Code WordOp}
    (h : backend.declare name s = .ok (code, t)) :
    t.vars.scopes.outer = s.vars.scopes.outer := by
  rcases declare_ok h with ⟨n, hslot, -⟩
  rcases allocate_ok hslot with ⟨-, rfl⟩ | ⟨-, -, -, rfl⟩ <;> rfl

mutual

/-- Statements keep the scopes around the innermost one, and those that declare nothing keep all of
them. -/
theorem emitsStmt_scopes {s t : GenState WordVars} {st : Stmt} {code : Code WordOp}
    (h : backend.EmitsStmt s st code t) (hplaced : st.placed = true) :
    t.vars.scopes.outer = s.vars.scopes.outer ∧
      (st.declares = false → t.vars.scopes = s.vars.scopes) := by
  have hsame : t.vars.scopes = s.vars.scopes → t.vars.scopes.outer = s.vars.scopes.outer ∧
      (st.declares = false → t.vars.scopes = s.vars.scopes) :=
    fun hscopes => ⟨congrArg Scopes.outer hscopes, fun _ => hscopes⟩
  cases h with
  | print hvalue _ => exact hsame (by rw [GenState.onLine_vars, emits_vars hvalue])
  | expression hvalue _ => exact hsame (by rw [GenState.onLine_vars, emits_vars hvalue])
  | var hvalue _ hdeclare =>
      refine ⟨?_, fun h => nomatch h⟩
      rw [declare_outer hdeclare, GenState.onLine_vars, emits_vars hvalue]
  | varUnset _ hdeclare =>
      refine ⟨?_, fun h => nomatch h⟩
      rw [declare_outer hdeclare, GenState.onLine_vars]
  | @block _ t _ _ _ hbody _ =>
      rw [Stmt.placed] at hplaced
      have houter : t.vars.scopes.outer = s.vars.scopes.inner :: s.vars.scopes.outer :=
        emitsAll_scopes hbody hplaced
      refine hsame ?_
      -- The body has changed nothing but the scope that is left here.
      show t.vars.scopes.leave = s.vars.scopes
      rw [Scopes.leave, houter]
  | ifThen hcondition _ hyes hno _ _ _ _ =>
      rcases Stmt.placed_ifThen.mp hplaced with ⟨⟨hdeclares, hplacedYes⟩, hplacedNo⟩
      have hyesScopes := (emitsStmt_scopes hyes hplacedYes).2 hdeclares
      have hnoScopes := emitsElse_scopes hno hplacedNo
      refine hsame ?_
      rw [hnoScopes, GenState.onLine_vars, hyesScopes, GenState.onLine_vars, emits_vars hcondition]
  | whileDo hcondition _ hbody _ _ _ _ =>
      rcases Stmt.placed_whileDo.mp hplaced with ⟨hdeclares, hplacedBody⟩
      have hbodyScopes := (emitsStmt_scopes hbody hplacedBody).2 hdeclares
      refine hsame ?_
      rw [GenState.onLine_vars, hbodyScopes, GenState.onLine_vars, emits_vars hcondition]

/-- An else branch leaves the slots in scope as they were. -/
theorem emitsElse_scopes {s t : GenState WordVars} {line : Nat} {no : Option Stmt}
    {code : Code WordOp} (h : backend.EmitsElse line s no code t)
    (hplaced : ∀ st ∈ no, st.declares = false ∧ st.placed = true) :
    t.vars.scopes = s.vars.scopes := by
  cases h with
  | none => rfl
  | some hno =>
      rcases hplaced _ rfl with ⟨hdeclares, hplaced⟩
      exact (emitsStmt_scopes hno hplaced).2 hdeclares

/-- Statements leave the scopes around them as they were. -/
theorem emitsAll_scopes {s t : GenState WordVars} {sts : List Stmt} {code : Code WordOp}
    (h : backend.EmitsAll s sts code t) (hplaced : Stmt.allPlaced sts = true) :
    t.vars.scopes.outer = s.vars.scopes.outer := by
  cases h with
  | nil => rfl
  | cons hfirst hrest =>
      rw [Stmt.allPlaced, Bool.and_eq_true] at hplaced
      have houter := (emitsStmt_scopes hfirst hplaced.1).1
      exact (emitsAll_scopes hrest hplaced.2).trans houter

end

/-! ## Statements -/

section Statements

variable {c : Chunk} {bound : Nat} {s t : GenState WordVars} {code : Code WordOp}
  {known : Scopes Nat} {session : Session} {m : WordMachine} {line : Nat}

/-- A conditional jump by the truth value on top of the stack, which it takes. -/
theorem branches :
    Branches c backend line (fun b => InStep known [ofBool b]) (InStep known []) := by
  intro b session m displacement target hin hjump htarget _
  have hstep := step_jumpUnless (next_of_holds hjump).1 hin.stack htarget
  cases b with
  | true => exact ⟨0, _, .single hstep, rfl, hin.restack rfl rfl rfl⟩
  | false => exact ⟨0, _, .single hstep, rfl, hin.restack rfl rfl rfl⟩

theorem jumps : Jumps c WordOp.jump line (InStep known []) (InStep known []) := by
  intro session m displacement target hin hholds htarget
  have hstep := step_jump (next_of_holds hholds).1 htarget
  exact ⟨_, hstep, rfl, hin.restack hin.stack rfl rfl⟩

/-- The machine follows a condition, and has its truth value as a word. -/
theorem follows_holds {e : Expr} {kind : StaticKind} (h : backend.Emits s e kind code t)
    (he : e.isCondition = true) (hknown : s.vars.scopes = known) (hholds : c.Holds m.pc code)
    (hin : InStep known [] session m) :
    Follows c bound m (fun b => Past (InStep known [ofBool b]) code m)
      (Exec.holds e session) := by
  refine (follows_condition h he hknown hholds hin).bind ?_
  rintro _ session' m' ⟨hpc, b, rfl, hin⟩
  exact .here ⟨hpc, hin⟩

/-- The machine prints the word on the stack as the integer that it is. -/
theorem follows_printLine {w : Int64} (hholds : c.Holds m.pc (Code.plain line [backend.print]))
    (hin : InStep known [w] session m) :
    Follows c bound m (fun _ => Past (InStep known []) (Code.plain line [backend.print]) m)
      (Exec.printLine line (.int w) session) := by
  rcases session with ⟨scopes, ⟨bytes, limit⟩⟩
  rcases (show limit = none from hin.unlimited) with rfl
  refine .after_step (step_print (next_of_holds hholds).1 hin.stack) (.here ⟨rfl, ?_⟩)
  exact
    { hin with
      stack := rfl
      output := congrArg (· ++ ((Value.int w).text ++ "\n").toUTF8) hin.output
      unlimited := rfl }

/-- The machine follows a declaration into its slot. -/
theorem follows_declare {w : Int64} {name : String}
    (h : backend.declare name (s.onLine line) = .ok (code, t)) (hs : s.vars.InOrder)
    (hholds : c.Holds m.pc code) (hin : InStep s.vars.scopes [w] session m) :
    Follows c bound m (fun _ => Past (InStep t.vars.scopes []) code m)
      (Exec.define name (.int w) session) := by
  rcases declare_ok h with ⟨n, hslot, rfl⟩
  rcases session with ⟨scopes, sink⟩
  have hstep := step_setVar (next_of_holds hholds).1 hin.stack
  have hin' : InStep (s.onLine line).vars.scopes [w] ⟨scopes, sink⟩ m := hin
  exact .after_step hstep (.here ⟨rfl, hin'.define hs hslot _⟩)

end Statements

theorem isInteger_ifThen {line : Nat} {condition : Expr} {yes : Stmt} {no : Option Stmt} :
    (Stmt.ifThen line condition yes no).isInteger = true ↔
      condition.isCondition = true ∧ yes.isInteger = true ∧
        ∀ st ∈ no, st.isInteger = true := by
  cases no with
  | none => simp [Stmt.isInteger]
  | some no => simp [Stmt.isInteger]

mutual

/-- The code of a statement follows the statement. -/
theorem follows_exec {c : Chunk} {bound : Nat} {s t : GenState WordVars} {st : Stmt}
    {code : Code WordOp} {session : Session} {m : WordMachine}
    (h : backend.EmitsStmt s st code t) (hplaced : st.placed = true)
    (hinteger : st.isInteger = true) (hs : s.vars.InOrder) (hholds : c.Holds m.pc code)
    (hin : InStep s.vars.scopes [] session m) :
    Follows c bound m (fun _ => Past (InStep t.vars.scopes []) code m) (st.exec bound session) := by
  cases h with
  | @print _ t line _ _ _ hvalue _ =>
      rw [Stmt.exec, GenState.onLine_vars, emits_vars hvalue]
      refine .sequence hholds (fun hholds => follows_integer hvalue hinteger rfl hholds hin) ?_
      rintro _ session' m' hholds ⟨w, rfl, hin⟩
      exact follows_printLine hholds hin
  | @expression _ t line _ _ _ hvalue _ =>
      rw [Stmt.exec, GenState.onLine_vars, emits_vars hvalue]
      refine .sequence hholds (fun hholds => follows_integer hvalue hinteger rfl hholds hin) ?_
      rintro _ session' m' hholds ⟨w, rfl, hin⟩
      have hstep := step_pop (next_of_holds hholds).1 hin.stack
      exact .after_step hstep (.here ⟨rfl, hin.restack rfl rfl rfl⟩)
  | @var _ t _ line _ _ _ _ _ hvalue _ hdeclare =>
      have hvars : t.vars = s.vars := emits_vars hvalue
      have ht : t.vars.InOrder := by rw [hvars]; exact hs
      rw [Stmt.exec]
      refine .sequence hholds (fun hholds => follows_integer hvalue hinteger rfl hholds hin) ?_
      rintro _ session' m' hholds ⟨w, rfl, hin⟩
      rw [← hvars] at hin
      exact follows_declare hdeclare ht hholds hin
  | varUnset => cases hinteger
  | @block _ t line _ code hbody _ =>
      rw [Stmt.placed] at hplaced
      have hbodyCode : c.Holds m.pc code := (Chunk.holds_append.mp hholds).1
      rw [Stmt.exec]
      refine .inScope (follows_execAll hbody hplaced hinteger hs.enter hbodyCode hin.enter) ?_
      rintro _ session' m' ⟨hpc, hin⟩
      -- No variable is on the stack, so there is nothing to pop at the end of a block.
      refine ⟨0, m', .refl m', ?_, hin.leave⟩
      simpa [backend, Code.plain, Code.onLine] using hpc
  | @ifThen _ t₁ u _ line _ _ _ _ _ _ _ _ _ hcondition _ hyes hno hdrop hjump _ _ =>
      rcases Stmt.placed_ifThen.mp hplaced with ⟨⟨hdeclares, hplacedYes⟩, hplacedNo⟩
      rcases isInteger_ifThen.mp hinteger with ⟨hcond, hintegerYes, hintegerNo⟩
      have ht : (t₁.onLine line).vars = s.vars := by rw [GenState.onLine_vars, emits_vars hcondition]
      have htOrder : (t₁.onLine line).vars.InOrder := by rw [ht]; exact hs
      have huOrder : (u.onLine line).vars.InOrder :=
        (backend_lawful.adds_of_emitsStmt hyes htOrder).inv
      have huScopes : u.vars.scopes = s.vars.scopes := by
        rw [(emitsStmt_scopes hyes hplacedYes).2 hdeclares, ht]
      have htScopes : t.vars.scopes = s.vars.scopes := (emitsElse_scopes hno hplacedNo).trans huScopes
      -- The branches declare nothing here, so the scopes behind either one are those in front of it.
      rw [exec_ifThen, htScopes]
      subst hjump
      refine .conditional hdrop hholds branches jumps
        (fun hholds => follows_holds hcondition hcond rfl hholds hin) ?_ ?_
      · intro session m hholds hin
        rw [← ht] at hin
        rw [← huScopes]
        exact follows_exec hyes hplacedYes hintegerYes htOrder hholds hin
      · intro session m hholds hin
        rw [← huScopes] at hin
        rw [← htScopes]
        exact follows_else hno hplacedNo hintegerNo huOrder hholds hin
  | @whileDo _ t u line condition body _ conditionCode _ _ _ hcondition _ hbody hdrop hinside _ _ =>
      rcases Stmt.placed_whileDo.mp hplaced with ⟨hdeclares, hplacedBody⟩
      rw [Stmt.isInteger, Bool.and_eq_true] at hinteger
      have ht : (t.onLine line).vars = s.vars := by rw [GenState.onLine_vars, emits_vars hcondition]
      have htOrder : (t.onLine line).vars.InOrder := by rw [ht]; exact hs
      have huScopes : u.vars.scopes = s.vars.scopes := by
        rw [(emitsStmt_scopes hbody hplacedBody).2 hdeclares, ht]
      have hconditionCode : c.Holds m.pc conditionCode := by
        rw [List.flatten_cons] at hholds
        exact (Chunk.holds_append.mp hholds).1
      -- The invariant of the loop: at its beginning, the machine is in step under the same scopes.
      rw [Stmt.exec, GenState.onLine_vars, huScopes]
      refine .loop hdrop hinside hholds branches jumps ?_ ?_ (Nat.le_refl bound) rfl hin
      · intro session m' hpc hin
        have hholds : c.Holds m'.pc conditionCode := by
          rw [show m'.pc = m.pc from hpc]
          exact hconditionCode
        exact follows_holds hcondition hinteger.1 rfl hholds hin
      · intro session m hholds hin
        rw [← ht] at hin
        rw [← huScopes]
        exact follows_exec hbody hplacedBody hinteger.2 htOrder hholds hin

/-- The machine follows an else branch, if there is one. -/
theorem follows_else {c : Chunk} {bound line : Nat} {s t : GenState WordVars} {no : Option Stmt}
    {code : Code WordOp} {session : Session} {m : WordMachine}
    (h : backend.EmitsElse line s no code t)
    (hplaced : ∀ st ∈ no, st.declares = false ∧ st.placed = true)
    (hinteger : ∀ st ∈ no, st.isInteger = true) (hs : s.vars.InOrder)
    (hholds : c.Holds m.pc code) (hin : InStep s.vars.scopes [] session m) :
    Follows c bound m (fun _ => Past (InStep t.vars.scopes []) code m)
      (no.elim (pure ()) (Stmt.exec bound) session) := by
  cases h with
  | none => exact .here ⟨rfl, hin⟩
  | @some _ _ t no _ hno =>
      rw [GenState.onLine_vars]
      exact follows_exec hno (hplaced no rfl).2 (hinteger no rfl) hs hholds hin

/-- The machine follows statements one after the other. -/
theorem follows_execAll {c : Chunk} {bound : Nat} {s t : GenState WordVars} {sts : List Stmt}
    {code : Code WordOp} {session : Session} {m : WordMachine}
    (h : backend.EmitsAll s sts code t) (hplaced : Stmt.allPlaced sts = true)
    (hinteger : Stmt.allInteger sts = true) (hs : s.vars.InOrder) (hholds : c.Holds m.pc code)
    (hin : InStep s.vars.scopes [] session m) :
    Follows c bound m (fun _ => Past (InStep t.vars.scopes []) code m)
      (Stmt.execAll bound sts session) := by
  cases h with
  | nil => exact .here ⟨rfl, hin⟩
  | cons hfirst hrest =>
      rw [Stmt.allPlaced, Bool.and_eq_true] at hplaced
      rw [Stmt.allInteger, Bool.and_eq_true] at hinteger
      have ht := (backend_lawful.adds_of_emitsStmt hfirst hs).inv
      rw [Stmt.execAll]
      refine .sequence hholds
        (fun hholds => follows_exec hfirst hplaced.1 hinteger.1 hs hholds hin) ?_
      intro _ session' m' hholds hin
      exact follows_execAll hrest hplaced.2 hinteger.2 ht hholds hin

end

/-! ## Programs -/

/-- Before the first instruction, the machine is in step with a session in which nothing has run. -/
theorem inStep_start :
    InStep backend.start.vars.scopes [] (Session.start .unlimited) WordMachine.start where
  mirrors := .cons (.empty _) .nil
  apart := .enter .nil
  stack := rfl
  output := rfl
  unlimited := rfl

end WordOp

/-- Code for the word machine keeps the meaning of integer programs: of every program that is parsed
without errors, that computes with integers and decides by comparisons of them, and for which code is
generated. Where the evaluator comes to the end of the program, the machine comes to the end of the code
with an empty stack and the same output. Where the evaluator fails, the machine fails with the same
output, at an instruction on the line of the error. Where the evaluator comes to no end, neither does
the machine. -/
theorem word_code_keeps_meaning {ts : List Token} {p : Program} {c : Chunk}
    (hparse : parseProgram ts = { result := p, errors := [] })
    (hinteger : Stmt.allInteger p = true) (hc : Target.word.generate p = .ok c) :
    (∀ bound s, (Session.start .unlimited).run bound p = some (.ok (), s) →
      ∃ steps m, WordMachine.exec c steps = (.stopped, m) ∧
        (∃ r : Record WordOp, c.decodeAt m.pc = .ok r ∧ r.op = .stopScript) ∧
        m.stack = [] ∧ m.output = s.sink.bytes) ∧
    (∀ bound e s, (Session.start .unlimited).run bound p = some (.error e, s) →
      ∃ steps m, WordMachine.exec c steps = (.failed, m) ∧
        m.output = s.sink.bytes ∧ c.lineAt m.pc = .ok e.line) ∧
    ((∀ bound, (Session.start .unlimited).run bound p = none) →
      ∀ steps, (WordMachine.exec c steps).1 = .running) := by
  have hplaced := Grammar.allPlaced_of_declarations (program_of_parseProgram hparse)
  rcases WordOp.backend_lawful.holds_of_program hc with ⟨code, t, hemits, -, hholds⟩
  rcases Chunk.holds_append.mp hholds with ⟨hcode, hend⟩
  -- the run of the program with every bound is followed; a run that ends needs only one of them
  have hfollows : ∀ bound, Follows c bound WordMachine.start
      (fun _ => Past (WordOp.InStep t.vars.scopes []) code WordMachine.start)
      (Stmt.execAll bound p (Session.start .unlimited)) := by
    intro bound
    exact WordOp.follows_execAll hemits hplaced hinteger WordOp.backend_lawful.fresh hcode
      WordOp.inStep_start
  refine ⟨?_, ?_, ?_⟩
  · intro bound s hrun
    have h := (hfollows bound).finish
    rw [show (Stmt.execAll bound p).finish (Session.start .unlimited) = some (.ok (), s) from hrun] at h
    rcases h with ⟨n, m, hmoves, hpc, hin⟩
    have hpc : m.pc = 0 + code.size := hpc
    have hend' : c.Holds m.pc (Code.plain t.line [WordOp.stopScript]) := by
      rw [hpc]
      exact hend
    have hnext : WordMachine.Next c m .stopScript 0 t.line := (WordMachine.next_of_holds hend').1
    exact ⟨n + 1, m, hmoves.run_stopped (WordMachine.step_stopScript hnext), ⟨_, hnext, rfl⟩,
      hin.stack, hin.output⟩
  · intro bound e s hrun
    have h := (hfollows bound).finish
    rw [show (Stmt.execAll bound p).finish (Session.start .unlimited) = some (.error e, s) from hrun] at h
    rcases h with ⟨n, m, hmoves, hfailed, houtput, hline⟩
    exact ⟨n + 1, m, hmoves.run_failed hfailed, houtput, hline⟩
  · intro hrun steps
    have h := (hfollows steps).finish
    rw [show (Stmt.execAll steps p).finish (Session.start .unlimited) = none from hrun steps] at h
    rcases h with ⟨n, m, hmoves, hn⟩
    exact hmoves.run_running hn

/-- A loop whose body declares a variable of the same name as one further out runs to its end, and
prints what it should. With a division by zero behind it, the program prints the same and fails on the
line of the division. -/
theorem word_code_keeps_meaning_shadowing :
    let loop : List Token :=
      [⟨.keyword .var_, "var", 1, none⟩, ⟨.identifier, "a", 1, none⟩,
        ⟨.symbol .equal, "=", 1, none⟩, ⟨.number, "1", 1, some (.int 1)⟩,
        ⟨.symbol .semicolon, ";", 1, none⟩, ⟨.symbol .leftBrace, "\x7b", 2, none⟩,
        ⟨.keyword .var_, "var", 2, none⟩, ⟨.identifier, "b", 2, none⟩,
        ⟨.symbol .equal, "=", 2, none⟩, ⟨.identifier, "a", 2, none⟩,
        ⟨.symbol .semicolon, ";", 2, none⟩, ⟨.keyword .while_, "while", 3, none⟩,
        ⟨.symbol .leftParen, "(", 3, none⟩, ⟨.identifier, "b", 3, none⟩,
        ⟨.symbol .lessEqual, "<=", 3, none⟩, ⟨.number, "2", 3, some (.int 2)⟩,
        ⟨.keyword .and_, "and", 3, none⟩, ⟨.symbol .bang, "!", 3, none⟩,
        ⟨.keyword .false_, "false", 3, none⟩,
        ⟨.symbol .rightParen, ")", 3, none⟩, ⟨.symbol .leftBrace, "\x7b", 3, none⟩,
        ⟨.keyword .var_, "var", 4, none⟩, ⟨.identifier, "a", 4, none⟩,
        ⟨.symbol .equal, "=", 4, none⟩, ⟨.identifier, "b", 4, none⟩,
        ⟨.symbol .semicolon, ";", 4, none⟩,
        ⟨.keyword .print_, "print", 5, none⟩, ⟨.identifier, "a", 5, none⟩,
        ⟨.symbol .semicolon, ";", 5, none⟩, ⟨.identifier, "b", 6, none⟩,
        ⟨.symbol .equal, "=", 6, none⟩, ⟨.identifier, "a", 6, none⟩,
        ⟨.symbol .plus, "+", 6, none⟩, ⟨.number, "1", 6, some (.int 1)⟩,
        ⟨.symbol .semicolon, ";", 6, none⟩, ⟨.symbol .rightBrace, "\x7d", 7, none⟩,
        ⟨.symbol .rightBrace, "\x7d", 8, none⟩]
    let division : List Token :=
      [⟨.keyword .print_, "print", 9, none⟩, ⟨.identifier, "a", 9, none⟩,
        ⟨.symbol .slash, "/", 9, none⟩, ⟨.number, "0", 9, some (.int 0)⟩,
        ⟨.symbol .semicolon, ";", 9, none⟩]
    (∃ p c steps m, parseProgram loop = { result := p, errors := [] } ∧
      Target.word.generate p = .ok c ∧ WordMachine.exec c steps = (.stopped, m) ∧
      m.stack = [] ∧ m.output = "1\n2\n".toUTF8) ∧
    ∃ p c steps m, parseProgram (loop ++ division) = { result := p, errors := [] } ∧
      Target.word.generate p = .ok c ∧ WordMachine.exec c steps = (.failed, m) ∧
      m.output = "1\n2\n".toUTF8 ∧ c.lineAt m.pc = .ok 9 := by
  intro loop division
  constructor
  · let p : Program := (parseProgram loop).result
    have herrors : (parseProgram loop).errors = [] := by decide +kernel
    have hparse : parseProgram loop = { result := p, errors := [] } := by
      rw [← herrors]
    have hinteger : Stmt.allInteger p = true := by decide +kernel
    have hok : (Target.word.generate p).isOk = true := by decide +kernel
    have hrun : ((Session.start .unlimited).run 9 p).map (fun r => (r.1.isOk, r.2.sink.bytes))
        = some (true, "1\n2\n".toUTF8) := by decide +kernel
    rcases hc : Target.word.generate p with e | c
    · rw [hc] at hok
      cases hok
    rcases Option.map_eq_some_iff.mp hrun with ⟨⟨_ | _, s⟩, hrun, hs⟩
    · cases hs
    rcases (word_code_keeps_meaning hparse hinteger hc).1 9 s hrun with
      ⟨steps, m, hexec, -, hstack, houtput⟩
    exact ⟨p, c, steps, m, hparse, hc, hexec, hstack, houtput.trans (congrArg Prod.snd hs)⟩
  · let p : Program := (parseProgram (loop ++ division)).result
    have herrors : (parseProgram (loop ++ division)).errors = [] := by decide +kernel
    have hparse : parseProgram (loop ++ division) = { result := p, errors := [] } := by
      rw [← herrors]
    have hinteger : Stmt.allInteger p = true := by decide +kernel
    have hok : (Target.word.generate p).isOk = true := by decide +kernel
    have hrun : ((Session.start .unlimited).run 9 p).map
          (fun r => (r.1.mapError RuntimeError.line, r.2.sink.bytes))
        = some (.error 9, "1\n2\n".toUTF8) := by decide +kernel
    rcases hc : Target.word.generate p with e | c
    · rw [hc] at hok
      cases hok
    rcases Option.map_eq_some_iff.mp hrun with ⟨⟨e | _, s⟩, hrun, hs⟩
    · rcases (word_code_keeps_meaning hparse hinteger hc).2.1 9 e s hrun with
        ⟨steps, m, hexec, houtput, hline⟩
      have he : e.line = 9 := Except.error.inj (congrArg Prod.fst hs)
      rw [he] at hline
      exact ⟨p, c, steps, m, hparse, hc, hexec, houtput.trans (congrArg Prod.snd hs), hline⟩
    · cases hs

end Scriptlet
