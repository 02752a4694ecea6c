import Scriptlet.Proofs.Following
import Scriptlet.Proofs.Operations
import Scriptlet.Proofs.Slots

/-! # The word machine follows the evaluator

The word machine knows integers only, and truth values are the words one and zero. It counts zero as
false, which the language does not. So the two agree on integer programs: programs that compute with
integers, and that decide by comparisons of integers and by what is made of them.

`InStep` is what machine and evaluator have in common between two pieces of code. Unlike on the pool
machine, the stack holds nothing but the words that wait to be used; variables are in slots. The code of
an expression adds one word to those that wait, or fails where the evaluation fails.
-/

namespace Scriptlet

open Machine

/-! ## Integer programs -/

/-- Is the expression made of integers, variables, assignments and arithmetic only? -/
def Expr.isInteger : Expr → Bool
  | .literal _ (.int _) => true
  | .group _ inner => inner.isInteger
  | .unary _ .negate operand => operand.isInteger
  | .binary _ op left right => op.isArithmetic && (left.isInteger && right.isInteger)
  | .ident _ _ => true
  | .assign _ _ value => value.isInteger
  | _ => false

/-- Is the expression made of truth values, comparisons of integers, `!`, `and` and `or` only? -/
def Expr.isCondition : Expr → Bool
  | .literal _ (.bool _) => true
  | .group _ inner => inner.isCondition
  | .unary _ .not operand => operand.isCondition
  | .binary _ op left right => !op.isArithmetic && (left.isInteger && right.isInteger)
  | .logical _ _ left right => left.isCondition && right.isCondition
  | _ => false

mutual

/-- Does the statement compute with integers, decide by conditions, and give every variable that it
declares a first value? -/
def Stmt.isInteger : Stmt → Bool
  | .print _ value => value.isInteger
  | .expression _ value => value.isInteger
  | .var _ _ none => false
  | .var _ _ (some initial) => initial.isInteger
  | .block _ body => Stmt.allInteger body
  | .ifThen _ condition yes none => condition.isCondition && yes.isInteger
  | .ifThen _ condition yes (some no) => condition.isCondition && (yes.isInteger && no.isInteger)
  | .whileDo _ condition body => condition.isCondition && body.isInteger

/-- Is every one of these statements an integer program? -/
def Stmt.allInteger : List Stmt → Bool
  | [] => true
  | s :: rest => s.isInteger && Stmt.allInteger rest

end

/-! ## Being in step -/

namespace WordOp

open WordMachine WordVars

/-- The machine is in step with a session. Its slots hold the variables in scope, no two of them in one
slot; its stack holds the words that are waiting to be used; and it has printed what the session has
printed. -/
structure InStep (known : Scopes Nat) (waiting : List Int64) (s : Session) (m : WordMachine) :
    Prop where
  mirrors : MirrorsAll m.slots known.all s.scopes.all
  apart : Apart known.all
  stack : m.stack = waiting
  output : m.output = s.sink.bytes
  unlimited : s.sink.limit = none

/-- An integer is on top of the stack. -/
def LeavesInt (known : Scopes Nat) (waiting : List Int64) (v : Value) (s : Session)
    (m : WordMachine) : Prop :=
  ∃ w, v = .int w ∧ InStep known (w :: waiting) s m

/-- A truth value is on top of the stack. -/
def LeavesBool (known : Scopes Nat) (waiting : List Int64) (v : Value) (s : Session)
    (m : WordMachine) : Prop :=
  ∃ b, v = .bool b ∧ InStep known (ofBool b :: waiting) s m

namespace InStep

variable {known : Scopes Nat} {waiting waiting' : List Int64} {s : Session} {m m' : WordMachine}
  {name : String} {n : Nat} {w : Int64}

/-- Other words wait on the stack; nothing else is different. -/
theorem restack (h : InStep known waiting s m) (hstack : m'.stack = waiting')
    (hslots : m'.slots = m.slots) (houtput : m'.output = m.output) :
    InStep known waiting' s m' where
  mirrors := by rw [hslots]; exact h.mirrors
  apart := h.apart
  stack := hstack
  output := houtput.trans h.output
  unlimited := h.unlimited

/-- A variable is bound to the integer in its slot. -/
theorem find? (h : InStep known waiting s m) (hname : known.find? name = some n) :
    ∃ w, m.slots[(n : Int)]? = some w ∧ s.scopes.find? name = some (.int w) :=
  h.mirrors.findSome? hname

/-- An assignment in the session, and a store into the slot of the name. -/
theorem assign (h : InStep known (w :: waiting) s m) (hname : known.find? name = some n) :
    ∃ scopes, s.scopes.assign? name (.int w) = some scopes ∧
      ∀ pc, InStep known (w :: waiting) { s with scopes }
        { m with pc, slots := m.slots.insert (n : Int) w } := by
  rcases h.mirrors.rebind h.apart hname with ⟨rebound, hrebound, hmirrors⟩
  rcases Scopes.assign?_eq_some hrebound with ⟨scopes, hassign, rfl⟩
  exact ⟨scopes, hassign, fun pc => ⟨hmirrors, h.apart, h.stack, h.output, h.unlimited⟩⟩

/-- A declaration in the session, and a store into the slot that the name has got. -/
theorem define {gen gen' : GenState WordVars} (h : InStep gen.vars.scopes (w :: waiting) s m)
    (hgen : gen.vars.InOrder) (hslot : allocate name gen = .ok (n, gen')) (pc : Nat) :
    InStep gen'.vars.scopes waiting { s with scopes := s.scopes.define name (.int w) }
      { m with pc, stack := waiting, slots := m.slots.insert (n : Int) w } := by
  have hmirrors : MirrorsAll m.slots (gen.vars.scopes.inner :: gen.vars.scopes.outer)
      (s.scopes.inner :: s.scopes.outer) := h.mirrors
  rcases List.forall₂_cons.mp hmirrors with ⟨hhere, houter⟩
  rcases allocate_ok hslot with ⟨hinner, rfl⟩ | ⟨hinner, -, rfl, rfl⟩
  · -- The name has been declared here before, and keeps its slot.
    exact ⟨.redefine hhere houter h.apart hinner, h.apart, rfl, h.output, h.unlimited⟩
  · -- The slot is the next one, which no variable in scope has.
    have hnew : ∀ known ∈ gen.vars.scopes.all, Avoids gen.vars.next known := by
      intro known hknown other hother
      exact Nat.lt_irrefl _ (hgen.slot_lt hknown hother)
    refine ⟨.define hhere houter ?_ ?_ ?_, h.apart.define hnew name, rfl, h.output, h.unlimited⟩
    · intro other hother
      exact absurd hother (hnew _ List.mem_cons_self other)
    · exact fun other => Scope.getElem?_insert ..
    · exact fun outer hmem => hnew outer (List.mem_cons_of_mem _ hmem)

theorem enter (h : InStep known waiting s m) :
    InStep known.enter waiting { s with scopes := s.scopes.enter } m :=
  ⟨.cons (.empty _) h.mirrors, h.apart.enter, h.stack, h.output, h.unlimited⟩

/-- The slots of a block are forgotten behind it, with its variables. -/
theorem leave (h : InStep known waiting s m) :
    InStep known.leave waiting { s with scopes := s.scopes.leave } m := by
  rcases known with ⟨inner, outer⟩
  rcases s with ⟨⟨inner', outer'⟩, sink⟩
  have hmirrors : MirrorsAll m.slots (inner :: outer) (inner' :: outer') := h.mirrors
  cases hmirrors with
  | cons _ houter =>
      cases houter with
      | nil => exact h
      | cons hhere houter =>
          exact ⟨.cons hhere houter, h.apart.tail, h.stack, h.output, h.unlimited⟩

end InStep

/-! ## Expressions -/

section Expressions

variable {c : Chunk} {bound : Nat} {s t : GenState WordVars} {code : Code WordOp}
  {known : Scopes Nat} {waiting : List Int64} {session : Session} {m : WordMachine} {line : Nat}

/-- Expressions declare nothing. -/
theorem emits_vars {e : Expr} {kind : StaticKind} (h : backend.Emits s e kind code t) :
    t.vars = s.vars := by
  -- on how the code was emitted: expressions allocate no slots
  induction h with
  | literal _ hcode =>
      rcases literal_ok hcode with ⟨word, -, -, rfl⟩
      rfl
  | group _ ih => exact ih
  | unary _ _ _ ih => exact ih
  | binary _ _ _ _ ihLeft ihRight => exact ihRight.trans ihLeft
  | ident _ hcode =>
      rcases fetch_ok hcode with ⟨n, -, -, rfl⟩
      rfl
  | assign _ _ hstore ih =>
      rcases store_ok hstore with ⟨n, -, -, rfl⟩
      exact ih
  | logical _ _ _ _ _ ihLeft ihRight => exact ihRight.trans ihLeft

/-- The word of a literal stands for its value. -/
theorem ofInt_word? {v : Value} {word : Int} {w : Int64} (hword : v.word? = some word)
    (hw : ofValue? v = some w) : Int64.ofInt word = w := by
  cases v with
  | int n =>
      cases hw
      have hword : (if -32768 ≤ w.toInt ∧ w.toInt < 32768 then some w.toInt else none) = some word :=
        hword
      split at hword
      · rw [← Option.some.inj hword, Int64.ofInt_toInt]
      · cases hword
  | bool b => cases b <;> cases hword <;> cases hw <;> rfl
  | double _ | string _ | nil => cases hw

/-- A literal is pushed as its word. -/
theorem follows_literal {value : Value} {w : Int64} (hw : ofValue? value = some w)
    (h : backend.literal value (s.onLine line) = .ok (code, t)) (hholds : c.Holds m.pc code)
    (hin : InStep known waiting session m) :
    Follows c bound m
      (fun v => Past (fun s m => v = value ∧ InStep known (w :: waiting) s m) code m)
      (.ok value session) := by
  rcases literal_ok h with ⟨word, hword, rfl, -⟩
  have hstep := step_pushWord (next_of_holds hholds).1
  rw [ofInt_word? hword hw] at hstep
  exact .after_step hstep (.here ⟨by simp, rfl, hin.restack (by simp [hin.stack]) rfl rfl⟩)

/-- The machine reads a variable from its slot. -/
theorem follows_fetch {name : String} (hknown : s.vars.scopes = known)
    (h : backend.fetch name (s.onLine line) = .ok (code, t)) (hholds : c.Holds m.pc code)
    (hin : InStep known waiting session m) :
    Follows c bound m (fun v => Past (LeavesInt known waiting v) code m)
      (Exec.ofEval (Eval.fetch name line) session) := by
  rcases fetch_ok h with ⟨n, hname, rfl, -⟩
  rcases hin.find? (hknown ▸ hname) with ⟨w, hslot, hfind⟩
  have hstep := step_getVar (next_of_holds hholds).1 hslot
  rcases session with ⟨scopes, sink⟩
  have hfind : scopes.find? name = some (.int w) := hfind
  simp only [Exec.ofEval, Eval.fetch, hfind]
  refine .after_step hstep (.here ⟨by simp, w, rfl, hin.restack ?_ rfl rfl⟩)
  simp [hin.stack]

/-- A store duplicates the word that it takes, so that the value of the assignment is left. -/
theorem follows_store {name : String} {w : Int64} (hknown : s.vars.scopes = known)
    (h : backend.store name (s.onLine line) = .ok (code, t)) (hholds : c.Holds m.pc code)
    (hin : InStep known (w :: waiting) session m) :
    Follows c bound m (fun _ => Past (InStep known (w :: waiting)) code m)
      (Exec.ofEval (Eval.store name line (.int w)) session) := by
  rcases store_ok h with ⟨n, hname, rfl, -⟩
  rcases hin.assign (hknown ▸ hname) with ⟨scopes', hassign, hin'⟩
  -- Two steps: the word is copied, and the copy goes to the slot.
  rcases next_of_holds hholds with ⟨hdup, hrest⟩
  let m' := m.behind dup (w :: w :: waiting)
  have hset : WordMachine.Next c m' setVar n line := (next_of_holds hrest).1
  have hstep := step_dup hdup hin.stack
  have hstep' := step_setVar hset rfl
  rcases session with ⟨scopes, sink⟩
  have hassign : scopes.assign? name (.int w) = some scopes' := hassign
  simp only [Exec.ofEval, Eval.store, hassign]
  refine .after_step hstep (.after_step hstep' (.here ⟨?_, (hin' 0).restack rfl rfl rfl⟩))
  simp [m', Nat.add_assoc]

/-- An operation on values, by an instruction that fails where the operation fails. -/
theorem follows_operation {r : Except RuntimeError Value} {op : WordOp} {arg : Int}
    {P : Value → Session → WordMachine → Prop} (hnext : WordMachine.Next c m op arg line)
    (hstep : step c m = match r.toOption.bind ofValue? with
      | some w => .next (m.behind op (w :: waiting))
      | none => .failed)
    (hline : ∀ e, r = .error e → e.line = line)
    (hresult : ∀ v, r = .ok v →
      ∃ w, ofValue? v = some w ∧ P v session (m.behind op (w :: waiting)))
    (houtput : m.output = session.sink.bytes) :
    Follows c bound m (fun v => Past (P v) (Code.plain line [op]) m)
      (Exec.ofEval (Eval.ofExcept r) session) := by
  rcases session with ⟨scopes, sink⟩
  cases r with
  | error e => exact .fail hnext hstep houtput (hline e rfl)
  | ok v =>
      rcases hresult v rfl with ⟨w, hw, hP⟩
      simp only [Except.toOption, Option.bind_some, hw] at hstep
      exact .after_step hstep (.here ⟨by simp [Code.plain], hP⟩)

/-- The machine negates as evaluation does. -/
theorem follows_negate {w : Int64} (hholds : c.Holds m.pc (Code.plain line [backend.unary .negate]))
    (hin : InStep known (w :: waiting) session m) :
    Follows c bound m
      (fun v => Past (LeavesInt known waiting v) (Code.plain line [backend.unary .negate]) m)
      (Exec.ofEval (Eval.ofExcept (UnaryOp.negate.apply line (.int w))) session) := by
  have hnext := (next_of_holds hholds).1
  refine follows_operation hnext (step_negate hnext hin.stack) (fun _ => UnaryOp.apply_line) ?_
    hin.output
  intro v hv
  rcases exactInt_int hv with ⟨x, rfl⟩
  exact ⟨x, rfl, x, rfl, hin.restack rfl rfl rfl⟩

/-- The machine computes as evaluation does, and fails where it does. -/
theorem follows_arithmetic {op : BinaryOp} {left right : Int64} (hop : op.isArithmetic = true)
    (hholds : c.Holds m.pc (Code.plain line (backend.binary op)))
    (hin : InStep known (right :: left :: waiting) session m) :
    Follows c bound m
      (fun v => Past (LeavesInt known waiting v) (Code.plain line (backend.binary op)) m)
      (Exec.ofEval (Eval.ofExcept (op.apply line (.int left) (.int right))) session) := by
  have hnext := (next_of_holds hholds).1
  refine follows_operation hnext (step_binary hnext hin.stack) (fun _ => BinaryOp.apply_line) ?_
    hin.output
  intro v hv
  rw [BinaryOp.apply_int] at hv
  rcases BinaryOp.applyInt_int hop hv with ⟨x, rfl⟩
  exact ⟨x, rfl, x, rfl, hin.restack rfl rfl rfl⟩

/-- The machine compares as evaluation does. -/
theorem follows_comparison {op : BinaryOp} {left right : Int64} (hop : op.isArithmetic = false)
    (hholds : c.Holds m.pc (Code.plain line (backend.binary op)))
    (hin : InStep known (right :: left :: waiting) session m) :
    Follows c bound m
      (fun v => Past (LeavesBool known waiting v) (Code.plain line (backend.binary op)) m)
      (Exec.ofEval (Eval.ofExcept (op.apply line (.int left) (.int right))) session) := by
  have hnext := (next_of_holds hholds).1
  refine follows_operation hnext (step_binary hnext hin.stack) (fun _ => BinaryOp.apply_line) ?_
    hin.output
  intro v hv
  rcases BinaryOp.apply_comparison hop line left right with ⟨b, hb⟩
  rw [hb] at hv
  cases hv
  exact ⟨ofBool b, rfl, b, rfl, hin.restack rfl rfl rfl⟩

/-- The code of an integer expression leaves the value of the expression on the stack. -/
theorem follows_integer {e : Expr} {kind : StaticKind} (h : backend.Emits s e kind code t)
    (he : e.isInteger = true) (hknown : s.vars.scopes = known) (hholds : c.Holds m.pc code)
    (hin : InStep known waiting session m) :
    Follows c bound m (fun v => Past (LeavesInt known waiting v) code m)
      (Exec.ofEval e.eval session) := by
  -- on how the code was emitted; each integer is waiting on the stack as a word
  induction h generalizing waiting session m with
  | @literal s t line value code _ hcode =>
      cases value with
      | int w =>
          refine (follows_literal rfl hcode hholds hin).mono ?_
          rintro _ session' m' ⟨hpc, rfl, hin⟩
          exact ⟨hpc, w, rfl, hin⟩
      | double _ | bool _ | string _ | nil => cases he
  | group _ ih => exact ih he hknown hholds hin
  | @unary s t line op operand kind code _ hoperand _ _ ih =>
      cases op with
      | not => cases he
      | negate =>
          rw [Expr.eval, Exec.ofEval_bind]
          refine .sequence hholds (fun hholds => ih he hknown hholds hin) ?_
          rintro _ session' m' hholds ⟨w, rfl, hin⟩
          exact follows_negate hholds hin
  | @binary s t u line op left right _ _ _ _ _ hleft _ _ _ ihLeft ihRight =>
      simp only [Expr.isInteger, Bool.and_eq_true] at he
      rcases he with ⟨hop, heLeft, heRight⟩
      have hknown' : t.vars.scopes = known := by rw [emits_vars hleft, hknown]
      rw [Expr.eval, Exec.ofEval_bind]
      refine .sequence hholds (fun hholds => ihLeft heLeft hknown hholds hin) ?_
      rintro _ session' m' hholds ⟨l, rfl, hin⟩
      rw [Exec.ofEval_bind]
      refine .sequence hholds (fun hholds => ihRight heRight hknown' hholds hin) ?_
      rintro _ session' m' hholds ⟨r, rfl, hin⟩
      exact follows_arithmetic hop hholds hin
  | ident _ hcode => exact follows_fetch hknown hcode hholds hin
  | @assign s t u line name value _ _ _ hvalue _ hstore ih =>
      have hknown' : t.vars.scopes = known := by rw [emits_vars hvalue, hknown]
      rw [Expr.eval, Exec.ofEval_bind]
      refine .sequence hholds (fun hholds => ih he hknown hholds hin) ?_
      rintro _ session' m' hholds ⟨w, rfl, hin⟩
      rw [Exec.ofEval_bind]
      refine (follows_store hknown' hstore hholds hin).bind ?_
      rintro _ session'' m'' ⟨hpc, hin⟩
      exact .here ⟨hpc, w, rfl, hin⟩
  | logical => cases he

/-- The machine negates a truth value as a word. -/
theorem follows_not {b : Bool} (hholds : c.Holds m.pc (Code.plain line [backend.unary .not]))
    (hin : InStep known (ofBool b :: waiting) session m) :
    Follows c bound m
      (fun v => Past (LeavesBool known waiting v) (Code.plain line [backend.unary .not]) m)
      (Exec.ofEval (Eval.ofExcept (UnaryOp.not.apply line (.bool b))) session) := by
  have hword : ofBool (ofBool b == 0) = ofBool (!b) := by cases b <;> rfl
  have hstep := step_not (next_of_holds hholds).1 hin.stack
  rw [hword] at hstep
  rcases session with ⟨scopes, sink⟩
  exact .after_step hstep (.here ⟨rfl, !b, rfl, hin.restack rfl rfl rfl⟩)

/-- The jump over the right operand of a logical operator is taken if the left one decides. -/
theorem step_shortCut {op : LogicalOp} {b : Bool} {arg : Int} {target : Nat}
    (h : WordMachine.Next c m (backend.shortCutJump op) arg line)
    (hstack : m.stack = ofBool b :: waiting)
    (htarget : ((m.pc + Opcode.width (backend.shortCutJump op) : Nat) : Int) + arg = target) :
    step c m =
      if op.decidedBy (.bool b) then .next { m with pc := target, stack := waiting }
      else .next (m.behind (backend.shortCutJump op) waiting) := by
  cases op with
  | and =>
      rw [step_jumpUnless h hstack htarget]
      cases b <;> rfl
  | or =>
      rw [step_jumpIf h hstack htarget]
      cases b <;> rfl

/-- Behind the left operand of a logical operator, a copy of its word is taken by a jump that skips the
right operand if the left one decides. -/
theorem follows_shortCut {op : LogicalOp} {b : Bool} {skipped : Code WordOp} {right : Eval Value}
    (hholds : c.Holds m.pc (Code.onLine line
      [(dup, 0), (backend.shortCutJump op, (skipped.size : Int))] ++ skipped))
    (hin : InStep known (ofBool b :: waiting) session m)
    (hright : ∀ m', c.Holds m'.pc skipped → InStep known (ofBool b :: waiting) session m' →
      Follows c bound m' (fun v => Past (LeavesBool known waiting v) skipped m')
        (Exec.ofEval right session)) :
    Follows c bound m
      (fun v => Past (LeavesBool known waiting v) (Code.onLine line
        [(dup, 0), (backend.shortCutJump op, (skipped.size : Int))] ++ skipped) m)
      (Exec.ofEval (if op.decidedBy (.bool b) then pure (.bool b) else right) session) := by
  rcases Chunk.holds_append.mp hholds with ⟨hlead, hskipped⟩
  rcases next_of_holds hlead with ⟨hdup, hjump⟩
  -- the copy of the left operand is what the jump takes
  let m₁ := m.behind dup (ofBool b :: ofBool b :: waiting)
  have hnext : WordMachine.Next c m₁ (backend.shortCutJump op) skipped.size line :=
    (next_of_holds hjump).1
  have htarget : ((m₁.pc + Opcode.width (backend.shortCutJump op) : Nat) : Int) + skipped.size
      = ((m₁.pc + Opcode.width (backend.shortCutJump op) + skipped.size : Nat) : Int) := by
    push_cast
    rfl
  have hstep := step_shortCut hnext rfl htarget
  refine .after_step (step_dup hdup hin.stack) ?_
  by_cases hdecided : op.decidedBy (.bool b)
  · -- The word that is left is the value of the whole expression.
    rw [if_pos hdecided] at hstep ⊢
    rcases session with ⟨scopes, sink⟩
    refine .after_step hstep (.here ⟨?_, b, rfl, hin.restack rfl rfl rfl⟩)
    simp [m₁, Nat.add_assoc]
  · rw [if_neg hdecided] at hstep ⊢
    -- the left operand is still there, and the skipped code begins by dropping it
    let m₂ := m₁.behind (backend.shortCutJump op) (ofBool b :: waiting)
    have hpc : m₂.pc = m.pc + Code.size (Code.onLine line
        [(dup, 0), (backend.shortCutJump op, (skipped.size : Int))]) := by
      simp [m₂, m₁, Nat.add_assoc]
    rw [← hpc] at hskipped
    refine .after_step hstep ((hright m₂ hskipped (hin.restack rfl rfl rfl)).mono ?_)
    intro v session' m₃ h
    exact h.append hpc

/-- The code of a condition leaves the truth value of the condition on the stack. -/
theorem follows_condition {e : Expr} {kind : StaticKind} (h : backend.Emits s e kind code t)
    (he : e.isCondition = true) (hknown : s.vars.scopes = known) (hholds : c.Holds m.pc code)
    (hin : InStep known waiting session m) :
    Follows c bound m (fun v => Past (LeavesBool known waiting v) code m)
      (Exec.ofEval e.eval session) := by
  induction h generalizing waiting session m with
  | @literal s t line value code _ hcode =>
      cases value with
      | bool b =>
          refine (follows_literal rfl hcode hholds hin).mono ?_
          rintro _ session' m' ⟨hpc, rfl, hin⟩
          exact ⟨hpc, b, rfl, hin⟩
      | int _ | double _ | string _ | nil => cases he
  | group _ ih => exact ih he hknown hholds hin
  | @unary s t line op operand kind code _ hoperand _ _ ih =>
      cases op with
      | negate => cases he
      | not =>
          rw [Expr.eval, Exec.ofEval_bind]
          refine .sequence hholds (fun hholds => ih he hknown hholds hin) ?_
          rintro _ session' m' hholds ⟨b, rfl, hin⟩
          exact follows_not hholds hin
  | @binary s t u line op left right _ _ _ _ _ hleft hright _ _ _ _ =>
      simp only [Expr.isCondition, Bool.and_eq_true, Bool.not_eq_true'] at he
      rcases he with ⟨hop, heLeft, heRight⟩
      have hknown' : t.vars.scopes = known := by rw [emits_vars hleft, hknown]
      rw [Expr.eval, Exec.ofEval_bind]
      refine .sequence hholds (fun hholds => follows_integer hleft heLeft hknown hholds hin) ?_
      rintro _ session' m' hholds ⟨l, rfl, hin⟩
      rw [Exec.ofEval_bind]
      refine .sequence hholds (fun hholds => follows_integer hright heRight hknown' hholds hin) ?_
      rintro _ session' m' hholds ⟨r, rfl, hin⟩
      exact follows_comparison hop hholds hin
  | ident => cases he
  | assign => cases he
  | @logical s t u line op left right _ _ leftCode rightCode skipped hleft _ _ hskipped _ ihLeft
      ihRight =>
      rw [Expr.isCondition, Bool.and_eq_true] at he
      have hknown' : (t.onLine line).vars.scopes = known := by
        rw [GenState.onLine_vars, emits_vars hleft, hknown]
      have hcode : [leftCode, Code.plain line backend.keep,
            Code.onLine line (backend.shortCutLead op ++
              [(backend.shortCutJump op, (Code.size skipped : Int))]), skipped].flatten
          = leftCode ++ (Code.onLine line
              [(dup, 0), (backend.shortCutJump op, (Code.size skipped : Int))] ++ skipped) := by
        cases op <;> simp [backend, Code.plain, Code.onLine, Backend.shortCutLead]
      rw [hcode] at hholds ⊢
      rw [Expr.eval, Exec.ofEval_bind]
      refine .sequence hholds (fun hholds => ihLeft he.1 hknown hholds hin) ?_
      rintro _ session' m' hholds ⟨b, rfl, hin⟩
      refine follows_shortCut hholds hin ?_
      intro m₁ hholds hin
      -- The right operand is evaluated: its code begins with a pop of the left one's word.
      subst hskipped
      rcases Chunk.holds_append.mp hholds with ⟨hpop, hholds⟩
      have hstep := step_pop (next_of_holds hpop).1 hin.stack
      have hin' : InStep known waiting session' (m₁.behind pop waiting) := hin.restack rfl rfl rfl
      refine .after_step hstep ((ihRight he.2 hknown' hholds hin').mono ?_)
      intro v session'' m₂ h
      exact h.append rfl

end Expressions

end WordOp

end Scriptlet
