import Scriptlet.Proofs.Relining

/-! # Code does not depend on line numbers

The walk over a program and the walk over the same program on other lines run in parallel. The walk
sets the line of a node before it emits code for the node or fails at it, and again when it comes
back to the node from one of its parts. So every instruction and every error is on the line of a
node, and changing the lines of the program changes these lines and nothing else.

## Main statement

* `generate_mapLines`: generating code for a program with other line numbers gives the same code and
  constants, or the same error, on the lines that correspond.
-/

namespace Scriptlet

open Relining

variable {ω ν : Type}

/-! ## Backends -/

/-- A backend passes on the current line, and makes no other use of it. -/
structure Backend.LineBlind (b : Backend ω ν) : Prop where
  literal (χ : Relining) (v : Value) :
    χ.Parallel True True χ.Codes (b.literal v) (b.literal v)
  fetch (χ : Relining) (name : String) :
    χ.Parallel True True χ.Codes (b.fetch name) (b.fetch name)
  store (χ : Relining) (name : String) :
    χ.Parallel True True χ.Codes (b.store name) (b.store name)
  declare (χ : Relining) (name : String) :
    χ.Parallel True True χ.Codes (b.declare name) (b.declare name)

namespace PoolOp

variable {χ : Relining}

/-- The constant of a name does not depend on lines. -/
theorem nameConstant_parallel (name : String) :
    χ.Parallel True True Eq (PoolVars.nameConstant name) (PoolVars.nameConstant name) := by
  refine vars_parallel.bind ?_
  rintro v _ rfl
  split
  · exact pure_parallel rfl
  · refine (addConstant_parallel _).bind ?_
    rintro index _ rfl
    refine vars_parallel.bind ?_
    rintro v _ rfl
    refine (setVars_parallel _).bind ?_
    rintro _ _ _
    exact pure_parallel rfl

theorem access_parallel (onLocal onGlobal : PoolOp) (name : String) :
    χ.Parallel True True χ.Codes (access onLocal onGlobal name) (access onLocal onGlobal name) := by
  refine vars_parallel.bind ?_
  rintro v _ rfl
  split
  · exact instrs_parallel _
  · exact (nameConstant_parallel name).bind_instrs fun index => [(onGlobal, index)]

theorem declareLocal_parallel (name : String) :
    χ.Parallel True True Eq (PoolVars.declareLocal name) (PoolVars.declareLocal name) := by
  refine vars_parallel.bind ?_
  rintro v _ rfl
  split
  · exact setVars_parallel _
  · exact failHere_parallel fun _ => ⟨rfl, rfl⟩

/-- The backend of the pool machine does not look at lines. -/
theorem backend_lineBlind : backend.LineBlind where
  literal := by
    intro χ v
    cases v with
    | nil => exact plain_parallel _
    | bool x => cases x <;> exact plain_parallel _
    | int n => exact (addConstant_parallel _).bind_instrs fun index => [(constant, index)]
    | double x => exact (addConstant_parallel _).bind_instrs fun index => [(constant, index)]
    | string s => exact (addConstant_parallel _).bind_instrs fun index => [(constant, index)]
  fetch := fun _ => access_parallel getLocal getGlobal
  store := fun _ => access_parallel setLocal setGlobal
  declare := by
    intro χ name
    refine vars_parallel.bind ?_
    rintro v _ rfl
    split
    · refine (declareLocal_parallel name).bind ?_
      rintro _ _ _
      exact pure_parallel .nil
    · exact (nameConstant_parallel name).bind_instrs fun index => [(defineGlobal, index)]

end PoolOp

namespace WordOp

variable {χ : Relining}

theorem slot_parallel (name : String) :
    χ.Parallel True True Eq (WordVars.slot name) (WordVars.slot name) := by
  refine vars_parallel.bind ?_
  rintro v _ rfl
  split
  · exact pure_parallel rfl
  · exact failHere_parallel fun _ => ⟨rfl, rfl⟩

/-- A slot is allotted without regard to lines. -/
theorem allocate_parallel (name : String) :
    χ.Parallel True True Eq (WordVars.allocate name) (WordVars.allocate name) := by
  refine vars_parallel.bind ?_
  rintro v _ rfl
  split
  · exact pure_parallel rfl
  · split
    · refine (setVars_parallel _).bind ?_
      rintro _ _ _
      exact pure_parallel rfl
    · exact failHere_parallel fun _ => ⟨rfl, rfl⟩

/-- The backend of the word machine does not look at lines. -/
theorem backend_lineBlind : backend.LineBlind where
  literal := by
    intro χ v
    cases hword : v.word? with
    | none =>
      simp only [backend, hword]
      exact failHere_parallel fun _ => ⟨rfl, rfl⟩
    | some word =>
      simp only [backend, hword]
      exact instrs_parallel _
  fetch := fun _ name => (slot_parallel name).bind_instrs fun slot => [(getVar, slot)]
  store := fun _ name => (slot_parallel name).bind_instrs fun slot => [(dup, 0), (setVar, slot)]
  declare := fun _ name => (allocate_parallel name).bind_instrs fun slot => [(setVar, slot)]

end WordOp

/-! ## The walk over a program -/

namespace Backend

variable [Opcode ω] {b : Backend ω ν} {χ : Relining}

theorem shortCut_parallel (op : LogicalOp) (displacement : Int) :
    χ.Parallel True True χ.Codes (b.shortCut op displacement) (b.shortCut op displacement) := by
  cases op with
  | and => exact jumpBy_parallel _ _
  | or =>
    refine (instrs_parallel _).bind ?_
    intro lead lead' hlead
    refine (jumpBy_parallel _ _).bind ?_
    intro jump jump' hjump
    exact pure_parallel (hlead.append hjump)

/-- The code of an expression, for expressions that differ in lines: kinds are the same. -/
def SameKind (χ : Relining) (x x' : StaticKind × Code ω) : Prop :=
  x'.1 = x.1 ∧ χ.Codes x.2 x'.2

/-- Whatever line was set before, the walk over an expression sets one of its own. -/
theorem expr_parallel (hb : b.LineBlind) {e : Expr} (he : ∀ line ∈ e.lines, χ.used line)
    (known : Prop) :
    χ.Parallel known True (SameKind χ) (b.expr e) (b.expr (e.mapLines χ.map)) := by
  induction e generalizing known with
  | literal line value =>
    refine .onLine (he line (by simp [Expr.lines])) ?_
    refine (hb.literal χ value).bind ?_
    intro code code' hcode
    exact pure_parallel ⟨rfl, hcode⟩
  | group line inner ih =>
    -- a group has no code, so its line may be any
    exact ih he known
  | unary line op operand ih =>
    obtain ⟨hline, hoperand⟩ := List.forall_mem_cons.mp he
    refine (ih hoperand known).bind ?_
    rintro ⟨kind, code⟩ ⟨_, code'⟩ ⟨rfl, hcode⟩
    refine .onLine hline ?_
    dsimp only
    split
    · exact throw_parallel (e := .invalidOperands (.unary op) [_] line) hline
    · refine (plain_parallel _).bind ?_
      intro plain plain' hplain
      exact pure_parallel ⟨rfl, hcode.append hplain⟩
  | binary line op left right ihLeft ihRight =>
    obtain ⟨hline, hparts⟩ := List.forall_mem_cons.mp he
    obtain ⟨hleft, hright⟩ := List.forall_mem_append.mp hparts
    refine (ihLeft hleft known).bind ?_
    rintro ⟨leftKind, leftCode⟩ ⟨_, leftCode'⟩ ⟨rfl, hleftCode⟩
    refine (ihRight hright True).bind ?_
    rintro ⟨rightKind, rightCode⟩ ⟨_, rightCode'⟩ ⟨rfl, hrightCode⟩
    refine .onLine hline ?_
    dsimp only
    split
    · exact throw_parallel (e := .invalidOperands (.binary op) [_, _] line) hline
    · refine (plain_parallel _).bind ?_
      intro plain plain' hplain
      exact pure_parallel ⟨rfl, hleftCode.append (hrightCode.append hplain)⟩
  | ident line name =>
    refine .onLine (he line (by simp [Expr.lines])) ?_
    refine (hb.fetch χ name).bind ?_
    intro code code' hcode
    exact pure_parallel ⟨rfl, hcode⟩
  | assign line name value ih =>
    obtain ⟨hline, hvalue⟩ := List.forall_mem_cons.mp he
    refine (ih hvalue known).bind ?_
    rintro ⟨kind, code⟩ ⟨_, code'⟩ ⟨rfl, hcode⟩
    refine .onLine hline ?_
    refine (hb.store χ name).bind ?_
    intro store store' hstore
    exact pure_parallel ⟨rfl, hcode.append hstore⟩
  | logical line op left right ihLeft ihRight =>
    obtain ⟨hline, hparts⟩ := List.forall_mem_cons.mp he
    obtain ⟨hleft, hright⟩ := List.forall_mem_append.mp hparts
    refine (ihLeft hleft known).bind ?_
    rintro ⟨leftKind, leftCode⟩ ⟨_, leftCode'⟩ ⟨rfl, hleftCode⟩
    refine .onLine hline ?_
    refine (plain_parallel b.keep).bind ?_
    intro keep keep' hkeep
    refine (plain_parallel [b.pop]).bind ?_
    intro pop pop' hpop
    refine (ihRight hright True).bind ?_
    rintro ⟨rightKind, rightCode⟩ ⟨_, rightCode'⟩ ⟨rfl, hrightCode⟩
    -- behind the right operand, the jump over it is on the line of the operator again
    refine .onLine hline ?_
    have hskipped := hpop.append hrightCode
    dsimp only
    rw [hskipped.size_eq]
    refine (shortCut_parallel op _).bind ?_
    intro shortCut shortCut' hshortCut
    refine pure_parallel ⟨rfl, .flatten ?_⟩
    exact .cons hleftCode (.cons hkeep (.cons hshortCut (.cons hskipped .nil)))

omit [Opcode ω] in
/-- A part that is skipped if a condition is false. The jumps around it come after it, when its size
is known, and are on the line of the condition's node again. -/
theorem guarded_parallel {line : Nat} (hline : χ.used line) {part part' : Gen ν (Code ω)}
    {jumps jumps' : Code ω → Code ω → Gen ν (Code ω)}
    (hpart : χ.Parallel True True χ.Codes part part')
    (hjumps : ∀ drop drop' inner inner', χ.Codes drop drop' → χ.Codes inner inner' →
      χ.Parallel True True χ.Codes (jumps drop inner) (jumps' drop' inner')) :
    χ.Parallel True True χ.Codes
      (do
        Gen.setLine line
        let drop ← Gen.plain b.drop
        let inner ← part
        Gen.setLine line
        jumps drop inner)
      (do
        Gen.setLine (χ.map line)
        let drop ← Gen.plain b.drop
        let inner ← part'
        Gen.setLine (χ.map line)
        jumps' drop inner) := by
  refine .onLine hline ?_
  refine (plain_parallel b.drop).bind ?_
  intro drop drop' hdrop
  refine hpart.bind ?_
  intro inner inner' hinner
  exact .onLine hline (hjumps _ _ _ _ hdrop hinner)

/-- The end of a conditional, once the code of its branches is there. -/
theorem branches_parallel {condition condition' toElse toElse' drop drop' yes yes' no no' : Code ω}
    (hcondition : χ.Codes condition condition') (htoElse : χ.Codes toElse toElse')
    (hdrop : χ.Codes drop drop') (hyes : χ.Codes yes yes') (hno : χ.Codes no no') :
    χ.Parallel True True χ.Codes
      (do
        let toEnd ← Gen.jumpBy b.jump (Code.size (drop ++ no))
        return [condition, toElse, drop, yes, toEnd, drop, no].flatten : Gen ν (Code ω))
      (do
        let toEnd ← Gen.jumpBy b.jump (Code.size (drop' ++ no'))
        return [condition', toElse', drop', yes', toEnd, drop', no'].flatten) := by
  rw [(hdrop.append hno).size_eq]
  refine (jumpBy_parallel b.jump _).bind ?_
  intro toEnd toEnd' htoEnd
  refine pure_parallel (.flatten ?_)
  exact .cons hcondition (.cons htoElse (.cons hdrop (.cons hyes
    (.cons htoEnd (.cons hdrop (.cons hno .nil))))))

/-- A conditional with or without an else branch, if its parts run in parallel. -/
theorem ifThen_parallel {line : Nat} (hline : χ.used line) {condition condition' : Expr}
    {yes yes' : Stmt} {no no' : Option Stmt} {known : Prop}
    (hcondition : χ.Parallel known True (SameKind χ) (b.expr condition) (b.expr condition'))
    (hyes : χ.Parallel True True χ.Codes (b.stmt yes) (b.stmt yes'))
    (hno : Option.Rel (fun st st' => χ.Parallel True True χ.Codes (b.stmt st) (b.stmt st')) no no') :
    χ.Parallel known True χ.Codes (b.stmt (.ifThen line condition yes no))
      (b.stmt (.ifThen (χ.map line) condition' yes' no')) := by
  rw [stmt, stmt]
  refine hcondition.bind ?_
  rintro ⟨_, conditionCode⟩ ⟨_, conditionCode'⟩ ⟨-, hconditionCode⟩
  refine guarded_parallel hline hyes ?_
  intro drop drop' yesCode yesCode' hdrop hyesCode
  dsimp only
  -- both runs jump equally far, as lines take no room in the code
  rw [(hdrop.append hyesCode).size_eq]
  refine (jumpBy_parallel b.jumpUnless _).bind ?_
  intro toElse toElse' htoElse
  cases hno with
  | none => exact branches_parallel hconditionCode htoElse hdrop hyesCode .nil
  | some hno =>
    refine hno.bind ?_
    intro noCode noCode' hnoCode
    refine .onLine hline ?_
    exact branches_parallel hconditionCode htoElse hdrop hyesCode hnoCode

mutual

/-- Whatever line was set before, the walk over a statement sets one of its own. -/
theorem stmt_parallel (hb : b.LineBlind) {st : Stmt} (hst : ∀ line ∈ st.lines, χ.used line)
    (known : Prop) :
    χ.Parallel known True χ.Codes (b.stmt st) (b.stmt (st.mapLines χ.map)) := by
  match st with
  | .print line value | .expression line value =>
    obtain ⟨hline, hvalue⟩ := List.forall_mem_cons.mp hst
    refine (expr_parallel hb hvalue known).bind ?_
    rintro ⟨_, code⟩ ⟨_, code'⟩ ⟨-, hcode⟩
    refine .onLine hline ?_
    refine (plain_parallel _).bind ?_
    intro plain plain' hplain
    exact pure_parallel (hcode.append hplain)
  | .var line name (some initial) =>
    obtain ⟨hline, hinitial⟩ := List.forall_mem_cons.mp hst
    refine (expr_parallel hb hinitial known).bind ?_
    rintro ⟨_, code⟩ ⟨_, code'⟩ ⟨-, hcode⟩
    refine .onLine hline ?_
    refine (hb.declare χ name).bind ?_
    intro declare declare' hdeclare
    exact pure_parallel (hcode.append hdeclare)
  | .var line name none =>
    refine .onLine (hst line (by simp [Stmt.lines])) ?_
    refine (instrs_parallel [b.unset]).bind ?_
    intro code code' hcode
    refine (hb.declare χ name).bind ?_
    intro declare declare' hdeclare
    exact pure_parallel (hcode.append hdeclare)
  | .block line body =>
    obtain ⟨hline, hbody⟩ := List.forall_mem_cons.mp hst
    refine vars_parallel.bind ?_
    rintro v _ rfl
    refine (setVars_parallel _).bind ?_
    intro _ _ _
    -- an empty body leaves the line as it was, known or not
    refine (stmts_parallel hb hbody .nil known).bind ?_
    intro code code' hcode
    refine .onLine hline ?_
    refine vars_parallel.bind ?_
    rintro v _ rfl
    refine (setVars_parallel _).bind ?_
    intro _ _ _
    refine (plain_parallel _).bind ?_
    intro plain plain' hplain
    exact pure_parallel (hcode.append hplain)
  | .ifThen line condition yes none =>
    obtain ⟨hline, hparts⟩ := List.forall_mem_cons.mp hst
    obtain ⟨hcondition, hyes⟩ := List.forall_mem_append.mp hparts
    exact ifThen_parallel hline (expr_parallel hb hcondition known) (stmt_parallel hb hyes True)
      .none
  | .ifThen line condition yes (some no) =>
    obtain ⟨hline, hparts⟩ := List.forall_mem_cons.mp hst
    obtain ⟨hcondition, hbranches⟩ := List.forall_mem_append.mp hparts
    obtain ⟨hyes, hno⟩ := List.forall_mem_append.mp hbranches
    exact ifThen_parallel hline (expr_parallel hb hcondition known) (stmt_parallel hb hyes True)
      (.some (stmt_parallel hb hno True))
  | .whileDo line condition body =>
    obtain ⟨hline, hparts⟩ := List.forall_mem_cons.mp hst
    obtain ⟨hcondition, hbody⟩ := List.forall_mem_append.mp hparts
    refine (expr_parallel hb hcondition known).bind ?_
    rintro ⟨_, conditionCode⟩ ⟨_, conditionCode'⟩ ⟨-, hconditionCode⟩
    refine guarded_parallel hline (stmt_parallel hb hbody True) ?_
    intro drop drop' bodyCode bodyCode' hdrop hbodyCode
    -- code on other lines has the same size, so both loops jump over the same distances
    have hinside := hdrop.append hbodyCode
    dsimp only
    rw [hinside.size_eq, hconditionCode.size_eq]
    refine (jumpBy_parallel b.loop _).bind ?_
    intro again again' hagain
    refine (jumpBy_parallel b.jumpUnless _).bind ?_
    intro toEnd toEnd' htoEnd
    refine pure_parallel (.flatten ?_)
    exact .cons hconditionCode (.cons htoEnd (.cons hdrop
      (.cons hbodyCode (.cons hagain (.cons hdrop .nil)))))

/-- Statements that are put on other lines have their code on these lines. -/
theorem stmts_parallel (hb : b.LineBlind) {sts : List Stmt}
    (hsts : ∀ line ∈ Stmt.linesOfAll sts, χ.used line) {done done' : List (Code ω)}
    (hdone : List.Forall₂ χ.Codes done done') (known : Prop) :
    χ.Parallel known known χ.Codes (b.stmts sts done)
      (b.stmts (Stmt.mapLinesOfAll χ.map sts) done') := by
  match sts with
  | [] => exact pure_parallel (.flatten (List.rel_reverse hdone))
  | st :: rest =>
    obtain ⟨hst, hrest⟩ := List.forall_mem_append.mp hsts
    refine (stmt_parallel hb hst known).bind ?_
    intro code code' hcode
    exact (stmts_parallel hb hrest (.cons hcode hdone) True).loosen

end

/-- The code of a program that is not empty ends on a line in use. -/
theorem program_parallel (hb : b.LineBlind) {p : Program} (hp : p ≠ [])
    (hlines : ∀ line ∈ p.lines, χ.used line) :
    χ.Parallel False True χ.Codes (b.stmts p []) (b.stmts (p.mapLines χ.map) []) := by
  cases p with
  | nil => exact absurd rfl hp
  | cons st rest =>
    obtain ⟨hst, hrest⟩ := List.forall_mem_append.mp hlines
    refine (stmt_parallel hb hst False).bind ?_
    intro code code' hcode
    exact stmts_parallel hb hrest (.cons hcode .nil) True

/-- Steps whose outcomes agree become chunks of code that agrees, or fail with the same error. The
end of the program is on the line that was set last. -/
theorem assemble_outcomes {step step' : Gen ν (Code ω)}
    (h : χ.Outcomes True χ.Codes (step b.start) (step' b.start)) :
    (∃ (pool : Pool) (code code' : Code ω), b.assemble step = .ok (Chunk.ofCode pool code) ∧
      b.assemble step' = .ok (Chunk.ofCode pool code') ∧ χ.Codes code code') ∨
    ∃ e, b.assemble step = .error e ∧ b.assemble step' = .error (e.mapLine χ.map) ∧
      χ.used e.line := by
  generalize hx : step b.start = x at h
  generalize hy : step' b.start = y at h
  cases h with
  | error herror =>
    exact .inr ⟨_, b.assemble_eq_error hx, b.assemble_eq_error hy, herror⟩
  | @ok code code' s t hcode hst =>
    obtain ⟨hused, hline⟩ := hst.line trivial
    have hchunk := b.assemble_eq_ok hx hcode.line_nonneg
    have hchunk' := b.assemble_eq_ok hy hcode.line_nonneg_map
    rw [hst.pool, hline] at hchunk'
    exact .inl ⟨_, _, _, hchunk, hchunk', hcode.append (.onLine hused _)⟩

/-- Both programs become chunks of code that agrees, or both fail with the same error. -/
theorem program_outcomes (hb : b.LineBlind) {p : Program} (hp : p ≠ [])
    (hlines : ∀ line ∈ p.lines, χ.used line) :
    (∃ (pool : Pool) (code code' : Code ω), b.program p = .ok (Chunk.ofCode pool code) ∧
      b.program (p.mapLines χ.map) = .ok (Chunk.ofCode pool code') ∧ χ.Codes code code') ∨
    ∃ e, b.program p = .error e ∧ b.program (p.mapLines χ.map) = .error (e.mapLine χ.map) ∧
      χ.used e.line := by
  refine assemble_outcomes (program_parallel hb hp hlines _ _ ?_)
  -- before the first statement, the line of the state is no line of the program
  exact ⟨rfl, rfl, False.elim⟩

end Backend

/-- Each byte of the code is on a line in use. -/
theorem Relining.Codes.lineAt [Opcode ω] {χ : Relining} {code code' : Code ω}
    (h : χ.Codes code code') {pool : Pool} {offset : Nat}
    (hoffset : offset < (Chunk.ofCode pool code).size) :
    ∃ line : Nat, χ.used line ∧ (Chunk.ofCode pool code).lineAt offset = .ok (line : Int) := by
  have hlength : offset < code.lines.length := by
    rw [Code.length_lines, ← Code.length_bytes]
    exact hoffset
  obtain ⟨i, hi, hline⟩ := List.mem_flatMap.mp (List.getElem_mem hlength)
  obtain ⟨line, hused, heq⟩ := h.used i hi
  refine ⟨line, hused, ?_⟩
  have hget : (Chunk.ofCode pool code).lines[offset]? = some (line : Int) := by
    show code.lines.toArray[offset]? = _
    rw [List.getElem?_toArray, List.getElem?_eq_getElem hlength, List.eq_of_mem_replicate hline,
      heq]
  rw [Chunk.lineAt, hget]

/-- The lines of a program, taken to others. -/
def Program.relining (p : Program) (f : Nat → Nat) (hp : ∀ line ∈ p.lines, Gen.Carries line)
    (hf : ∀ line, Gen.Carries line → Gen.Carries (f line)) : Relining where
  used line := line ∈ p.lines
  map := f
  carries := fun {line} h => hp line h
  carries_map := fun {line} h => hf line (hp line h)

section Program

variable [Opcode ω] {b : Backend ω ν} {p : Program} {f : Nat → Nat}

/-- A program that is put on other lines becomes the chunk on these lines, or has its error there.
-/
theorem Backend.LineBlind.program_mapLines (hb : b.LineBlind) (hne : p ≠ [])
    (hp : ∀ line ∈ p.lines, Gen.Carries line)
    (hf : ∀ line, Gen.Carries line → Gen.Carries (f line)) :
    b.program (p.mapLines f)
      = ((b.program p).map (Chunk.mapLines f)).mapError (GenError.mapLine f) := by
  have houtcomes := Backend.program_outcomes (χ := p.relining f hp hf) hb hne fun _ h => h
  rcases houtcomes with ⟨pool, code, code', hrun, hrun', hcodes⟩ | ⟨e, hrun, hrun', -⟩
  · have heq : code' = code.mapLines f := hcodes.eq
    have hrun' : b.program (p.mapLines f) = .ok (Chunk.ofCode pool code') := hrun'
    rw [hrun, hrun', heq, Chunk.ofCode_mapLines]
    rfl
  · have hrun' : b.program (p.mapLines f) = .error (e.mapLine f) := hrun'
    rw [hrun, hrun']
    rfl

/-- Code and errors are on lines of the program. -/
theorem Backend.LineBlind.program_lines (hb : b.LineBlind) (hne : p ≠ [])
    (hp : ∀ line ∈ p.lines, Gen.Carries line) :
    (∀ c, b.program p = .ok c →
      ∀ offset < c.size, ∃ line ∈ p.lines, c.lineAt offset = .ok (line : Int)) ∧
    ∀ e, b.program p = .error e → e.line ∈ p.lines := by
  -- put on its own lines, the program shows which lines are used
  have houtcomes :=
    Backend.program_outcomes (χ := p.relining id hp fun _ h => h) hb hne fun _ h => h
  rcases houtcomes with ⟨pool, code, code', hrun, -, hcodes⟩ | ⟨e, hrun, -, hused⟩
  · rw [hrun]
    constructor
    · intro c hc offset hoffset
      cases hc
      exact hcodes.lineAt hoffset
    · intro e he
      cases he
  · rw [hrun]
    constructor
    · intro c hc
      cases hc
    · intro e' he
      cases he
      exact hused

end Program

/-- This holds for both targets. -/
theorem Target.generate_lines (target : Target) {p : Program} (hne : p ≠ [])
    (hp : ∀ line ∈ p.lines, Gen.Carries line) :
    (∀ c, target.generate p = .ok c →
      ∀ offset < c.size, ∃ line ∈ p.lines, c.lineAt offset = .ok (line : Int)) ∧
    ∀ e, target.generate p = .error e → e.line ∈ p.lines := by
  cases target with
  | word => exact WordOp.backend_lineBlind.program_lines hne hp
  | pool => exact PoolOp.backend_lineBlind.program_lines hne hp

/-- Both targets go along with other lines. -/
theorem Target.generate_relined (target : Target) {p : Program} {f : Nat → Nat} (hne : p ≠ [])
    (hp : ∀ line ∈ p.lines, Gen.Carries line)
    (hf : ∀ line, Gen.Carries line → Gen.Carries (f line)) :
    target.generate (p.mapLines f)
      = ((target.generate p).map (Chunk.mapLines f)).mapError (GenError.mapLine f) := by
  cases target with
  | word => exact WordOp.backend_lineBlind.program_mapLines hne hp hf
  | pool => exact PoolOp.backend_lineBlind.program_mapLines hne hp hf

/-- The code and the constants of a chunk, without its lines. -/
def Chunk.withoutLines (c : Chunk) : Array UInt8 × Pool :=
  (c.code, c.pool)

/-- Putting everything on one line changes neither code nor constants. -/
theorem Target.generate_withoutLines (target : Target) {p : Program} (hne : p ≠ [])
    (hp : ∀ line ∈ p.lines, Gen.Carries line) :
    (target.generate (p.mapLines fun _ => 1)).toOption.map Chunk.withoutLines
      = (target.generate p).toOption.map Chunk.withoutLines := by
  rw [target.generate_relined hne hp fun _ _ => ⟨by decide, by decide⟩]
  cases target.generate p with
  | ok c => rfl
  | error e => rfl

/-- Code generation commutes with any change `f` of line numbers, on a program that is not empty and
has all its lines, but for those of groups, in the range that code can carry.

* With other line numbers, generation succeeds if and only if it did so before. It gives the same
  code and the same constants, with each line of the chunk replaced by its image; or it gives the
  same error, with its line replaced by its image.
* Each byte of the chunk, also of the instruction that ends the program, is on the line of a node of
  the program, and so is an error.
* Programs that differ in line numbers only have the same code and constants, or fail both. -/
theorem generate_mapLines (target : Target) (p : Program) (f : Nat → Nat) (hne : p ≠ [])
    (hp : ∀ line ∈ p.lines, Gen.Carries line)
    (hf : ∀ line, Gen.Carries line → Gen.Carries (f line)) :
    target.generate (p.mapLines f)
      = ((target.generate p).map (Chunk.mapLines f)).mapError (GenError.mapLine f) ∧
    (∀ c, target.generate p = .ok c →
      ∀ offset < c.size, ∃ line ∈ p.lines, c.lineAt offset = .ok (line : Int)) ∧
    (∀ e, target.generate p = .error e → e.line ∈ p.lines) ∧
    ∀ q : Program, q.mapLines (fun _ => 1) = p.mapLines (fun _ => 1) →
      (∀ line ∈ q.lines, Gen.Carries line) →
      (target.generate q).toOption.map Chunk.withoutLines
        = (target.generate p).toOption.map Chunk.withoutLines := by
  obtain ⟨hbytes, herror⟩ := target.generate_lines hne hp
  refine ⟨target.generate_relined hne hp hf, hbytes, herror, ?_⟩
  intro q hshape hq
  have hneq : q ≠ [] := by
    rintro rfl
    cases p with
    | nil => exact hne rfl
    | cons st rest => cases hshape
  -- programs of one shape are the same with all of it on one line
  calc (target.generate q).toOption.map Chunk.withoutLines
      = (target.generate (q.mapLines fun _ => 1)).toOption.map Chunk.withoutLines :=
        (target.generate_withoutLines hneq hq).symm
    _ = (target.generate (p.mapLines fun _ => 1)).toOption.map Chunk.withoutLines := by rw [hshape]
    _ = (target.generate p).toOption.map Chunk.withoutLines := target.generate_withoutLines hne hp

/-- A loop that prints a text, with its lines counted from the last one that code can carry. One
target has no texts, and fails on the line of the text; the other ends its code on the line of the
loop. -/
theorem generate_mapLines_reversed :
    let p : Program :=
      [.whileDo 4 (.binary 2 .less (.literal 1 (.int 1)) (.literal 2 (.int 2)))
        (.print 4 (.group 0 (.literal 3 (.string "a"))))]
    let f : Nat → Nat := fun line => Gen.maxLine + 1 - line
    (∀ line ∈ p.lines, Gen.Carries line) ∧
    (∀ line, Gen.Carries line → Gen.Carries (f line)) ∧
    Target.word.generate (p.mapLines f)
      = .error (.unknownLiteral (.string "a") .word (Gen.maxLine - 2)) ∧
    ∃ c, Target.pool.generate p = .ok c ∧
      Target.pool.generate (p.mapLines f) = .ok (c.mapLines f) ∧
      (c.mapLines f).lines.toList.getLast? = some ((Gen.maxLine : Int) - 3) := by
  intro p f
  have hp : ∀ line ∈ p.lines, Gen.Carries line := by
    intro line hline
    have hrange : ∀ line ∈ p.lines, 0 < line ∧ line ≤ 4 := by decide
    exact ⟨(hrange line hline).1, Nat.le_trans (hrange line hline).2 (by decide)⟩
  have hf : ∀ line, Gen.Carries line → Gen.Carries (f line) := by
    rintro line ⟨hpos, hmax⟩
    show 0 < Gen.maxLine + 1 - line ∧ Gen.maxLine + 1 - line ≤ Gen.maxLine
    omega
  obtain ⟨hword, -⟩ := generate_mapLines .word p f (by decide) hp hf
  obtain ⟨hpool, -⟩ := generate_mapLines .pool p f (by decide) hp hf
  have hfails : Target.word.generate p = .error (.unknownLiteral (.string "a") .word 3) := rfl
  refine ⟨hp, hf, ?_, _, rfl, ?_, ?_⟩
  · rw [hword, hfails]
    rfl
  · exact hpool
  · decide +kernel

end Scriptlet
