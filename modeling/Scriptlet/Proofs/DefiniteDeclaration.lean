import Scriptlet.Proofs.Operations
import Scriptlet.Proofs.ScopeDiscipline
import Scriptlet.Proofs.WordPreservation

/-! # Variables of programs for the word machine are declared

The generator for the word machine refuses a name that has no slot, so the code that it generates is a
certificate: at every point of every run, the variables that the program reads and assigns exist. The
generator goes through the text once, a run goes through it in the order of execution, and what ties
them together is that the names with a slot are among those that are bound, scope by scope
(`Scopes.Binds`). A step of execution that starts so, ends so, or is cut short by something else than a
missing variable (`Exec.Resolves`); rules for each kind of step make this a claim about whole programs.

The placement of declarations is what makes it true. A branch that is not taken declares nothing, which
is harmless only because no declaration stands in a branch without a block around it.

## Main statement

* `word_program_never_undefined`: a parsed program for which there is code for the word machine never
  ends in an undefined variable.
-/

namespace Scriptlet

/-! ## Known names are bound -/

/-- The scope binds every name that is known in it. -/
def Scope.Binds (scope : Scope Value) (known : Scope Nat) : Prop :=
  ∀ name : String, name ∈ known → name ∈ scope

namespace Scopes

/-- Scope by scope, every known name is bound. -/
structure Binds (scopes : Scopes Value) (known : Scopes Nat) : Prop where
  inner : scopes.inner.Binds known.inner
  outer : List.Forall₂ Scope.Binds scopes.outer known.outer

/-- Where an assignment finds no variable, there is none. -/
theorem findSome?_of_rebindFirst? {α : Type} {name : String} {a : α} {scopes : List (Scope α)}
    (h : rebindFirst? name a scopes = none) :
    scopes.findSome? (fun scope => scope[name]?) = none := by
  induction scopes with
  | nil => rfl
  | cons scope outer ih =>
    rw [rebindFirst?] at h
    by_cases hscope : scope.contains name
    · rw [if_pos hscope] at h
      cases h
    · rw [if_neg hscope] at h
      have houter := ih (Option.map_eq_none_iff.mp h)
      rw [Scope.contains_eq, Bool.not_eq_true, Option.isSome_eq_false_iff,
        Option.isNone_iff_eq_none] at hscope
      rw [List.findSome?_cons, hscope]
      exact houter

/-- A name that no scope could be assigned in is bound in none. -/
theorem find?_of_assign? {α : Type} {s : Scopes α} {name : String} {a : α}
    (h : s.assign? name a = none) : s.find? name = none := by
  apply findSome?_of_rebindFirst? (a := a)
  cases hrebound : rebindFirst? name a s.all with
  | none => rfl
  | some rebound =>
    obtain ⟨s', hassign, -⟩ := assign?_eq_some hrebound
    rw [h] at hassign
    cases hassign

/-- A known name is found: in the scope where it is known, if not further inside. -/
theorem findSome?_of_binds {name : String} {slot : Nat} {scopes : List (Scope Value)}
    {known : List (Scope Nat)} (h : List.Forall₂ Scope.Binds scopes known)
    (hname : known.findSome? (fun scope => scope[name]?) = some slot) :
    ∃ v, scopes.findSome? (fun scope => scope[name]?) = some v := by
  induction h with
  | nil => cases hname
  | @cons scope inner _ _ hinner _ ih =>
    rw [List.findSome?_cons] at hname ⊢
    cases hvalue : scope[name]? with
    | some v => exact ⟨v, rfl⟩
    | none =>
      -- What is not bound here is not known here, so the slot is one of a scope further out.
      have hunknown : inner[name]? = none := by
        apply Std.TreeMap.getElem?_eq_none
        intro hknown
        have hbound := Std.TreeMap.isSome_getElem?_iff_mem.mpr (hinner name hknown)
        rw [hvalue] at hbound
        cases hbound
      rw [hunknown] at hname
      exact ih hname

/-- Scopes that only change by assignments bind the names that they have bound. -/
theorem forall₂_binds_of_changes {assigned : List String} {scopes after : List (Scope Value)}
    {known : List (Scope Nat)} (h : List.Forall₂ Scope.Binds scopes known)
    (hchanges : List.Forall₂ (Scope.Changes [] assigned) scopes after) :
    List.Forall₂ Scope.Binds after known := by
  induction hchanges generalizing known with
  | nil => exact h
  | cons hscope _ ih =>
    cases h with
    | cons hbinds hrest =>
      apply List.Forall₂.cons
      · intro name hname
        exact hscope.keeps (hbinds name hname)
      · exact ih hrest

namespace Binds

variable {scopes after : Scopes Value} {known : Scopes Nat} {name : String}

/-- A known name is found. -/
theorem find? (h : scopes.Binds known) {slot : Nat} (hname : known.find? name = some slot) :
    ∃ v, scopes.find? name = some v :=
  findSome?_of_binds (.cons h.inner h.outer) hname

/-- Names stay bound, whatever execution does to the scopes. -/
theorem of_changes {declared assigned : List String} (h : scopes.Binds known)
    (hchanges : Scopes.Changes declared assigned scopes after) : after.Binds known := by
  constructor
  · intro name hname
    exact hchanges.inner.keeps (h.inner name hname)
  · exact forall₂_binds_of_changes h.outer hchanges.outer

/-- A declaration binds its name, whether or not the name is known already. -/
theorem define (h : scopes.Binds known) (v : Value) : (scopes.define name v).Binds known := by
  have hchanges : Scopes.Changes [name] [] scopes (scopes.define name v) :=
    changes_define v List.mem_cons_self
  exact h.of_changes hchanges

/-- A declaration makes its name known and bound at once. -/
theorem define_known (h : scopes.Binds known) (v : Value) (slot : Nat) :
    (scopes.define name v).Binds (known.define name slot) := by
  constructor
  · intro other hother
    have hother := Std.TreeMap.mem_insert.mp hother
    apply Std.TreeMap.mem_insert.mpr
    exact hother.imp_right (h.inner other)
  · exact h.outer

theorem enter (h : scopes.Binds known) : scopes.enter.Binds known.enter := by
  constructor
  · intro name hname
    exact absurd hname Std.TreeMap.not_mem_emptyc
  · exact .cons h.inner h.outer

/-- What is known outside of a block is bound outside of it. -/
theorem leave (h : scopes.Binds known) : scopes.leave.Binds known.leave := by
  rcases scopes with ⟨inner, outer⟩
  rcases known with ⟨innerKnown, outerKnown⟩
  have houter : List.Forall₂ Scope.Binds outer outerKnown := h.outer
  cases houter with
  | nil => exact h
  | cons hinner houter => exact ⟨hinner, houter⟩

end Binds

end Scopes

/-! ## Steps that find their variables -/

/-- Is the error about a variable that does not exist? -/
def RuntimeError.isUndefined : RuntimeError → Bool
  | undefinedVariable _ _ => true
  | _ => false

/-- An operation on a value fails for another reason than a missing variable. -/
theorem UnaryOp.apply_isUndefined {op : UnaryOp} {line : Nat} {v : Value} {e : RuntimeError}
    (h : op.apply line v = .error e) : e.isUndefined = false := by
  rcases apply_eq_error h with rfl | rfl | rfl <;> rfl

theorem BinaryOp.refusal_isUndefined (op : BinaryOp) (line : Nat) (left right : Value) :
    (op.refusal line left right).isUndefined = false := by
  unfold refusal
  split
  · rfl
  · split <;> rfl

theorem BinaryOp.apply_isUndefined {op : BinaryOp} {line : Nat} {left right : Value}
    {e : RuntimeError} (h : op.apply line left right = .error e) : e.isUndefined = false := by
  rcases apply_eq_error h with rfl | rfl | rfl
  · exact refusal_isUndefined ..
  · rfl
  · rfl

namespace Exec

variable {α β : Type} {known before between after : Scopes Nat} {step : Exec α}

/-- How a step may end: with the known names bound, or by an error about something else than a missing
variable, or because a loop was stopped. -/
inductive EndsWith (known : Scopes Nat) : EStateM.Result Halt Session α → Prop
  | done {a : α} {s : Session} : s.scopes.Binds known → EndsWith known (.ok a s)
  | failed {e : RuntimeError} {s : Session} :
      e.isUndefined = false → EndsWith known (.error (.error e) s)
  | unfinished {s : Session} : EndsWith known (.error .unfinished s)

/-- From every session in which the names known before the step are bound, the step looks for no
variable in vain, and where it succeeds, the names known after it are bound. -/
def Resolves (before after : Scopes Nat) (step : Exec α) : Prop :=
  ∀ s : Session, s.scopes.Binds before → EndsWith after (step s)

theorem resolves_pure (a : α) : (pure a : Exec α).Resolves known known := by
  intro s hbinds
  exact .done hbinds

/-- A sequence of steps finds its variables if each step does, with the names known where it starts. -/
theorem Resolves.bind {f : α → Exec β} (hstep : step.Resolves before between)
    (hf : ∀ a, (f a).Resolves between after) : (step >>= f).Resolves before after := by
  intro s hbinds
  have hends := hstep s hbinds
  cases hrun : step s with
  | ok a s' =>
    rw [EStateM.bind_of_ok hrun]
    rw [hrun] at hends
    cases hends with
    | done hbinds' => exact hf a s' hbinds'
  | error e s' =>
    -- The step that fails is the last one, and the error is its own.
    rw [EStateM.bind_of_error hrun]
    rw [hrun] at hends
    cases hends with
    | failed he => exact .failed he
    | unfinished => exact .unfinished

/-- Operations know nothing of variables. -/
theorem resolves_ofExcept {x : Except RuntimeError α}
    (hx : ∀ e, x = .error e → e.isUndefined = false) :
    (ofEval (Eval.ofExcept x)).Resolves known known := by
  intro s hbinds
  cases x with
  | ok a => exact .done hbinds
  | error e => exact .failed (hx e rfl)

/-- Reading a known variable does not look in vain. -/
theorem resolves_fetch {name : String} {slot : Nat} (hname : known.find? name = some slot)
    (line : Nat) : (ofEval (Eval.fetch name line)).Resolves known known := by
  intro s hbinds
  obtain ⟨v, hv⟩ := hbinds.find? hname
  simp only [ofEval, Eval.fetch, hv]
  exact .done hbinds

/-- Assigning to a known variable does not look in vain, and leaves known what was known. -/
theorem resolves_store {name : String} {slot : Nat} (hname : known.find? name = some slot)
    (line : Nat) (v : Value) : (ofEval (Eval.store name line v)).Resolves known known := by
  intro s hbinds
  cases hassign : s.scopes.assign? name v with
  | none =>
    obtain ⟨w, hw⟩ := hbinds.find? hname
    rw [Scopes.find?_of_assign? hassign] at hw
    cases hw
  | some scopes =>
    have hchanges : Scopes.Changes [] [name] s.scopes scopes :=
      Scopes.changes_assign? hassign List.mem_cons_self
    simp only [ofEval, Eval.store, hassign]
    exact .done (hbinds.of_changes hchanges)

/-- A declaration binds the name that it is given a slot for. -/
theorem resolves_define {name : String} {slot : Nat} {s t : GenState WordVars}
    (h : WordVars.allocate name s = .ok (slot, t)) (v : Value) :
    (define name v).Resolves s.vars.scopes t.vars.scopes := by
  intro session hbinds
  apply EndsWith.done
  rcases WordVars.allocate_ok h with ⟨-, rfl⟩ | ⟨-, -, -, rfl⟩
  · exact hbinds.define v
  · exact hbinds.define_known v _

/-- Printing may fail at the sink, but looks for no variable. -/
theorem resolves_printLine (line : Nat) (v : Value) :
    (printLine line v).Resolves known known := by
  intro s hbinds
  rcases hwrite : s.sink.write (v.text ++ "\n").toUTF8 with ⟨written, sink⟩
  simp only [printLine, hwrite]
  cases written with
  | true => exact .done hbinds
  | false => exact .failed rfl

/-- A step in a scope of its own is back in the scopes around it afterwards. -/
theorem Resolves.inScope (h : step.Resolves known.enter after) (hafter : after.leave = known) :
    (inScope step).Resolves known known := by
  intro s hbinds
  have hends := h { scopes := s.scopes.enter, sink := s.sink } hbinds.enter
  simp only [Exec.inScope]
  cases hrun : step { scopes := s.scopes.enter, sink := s.sink } with
  | ok a s' =>
    rw [hrun] at hends
    cases hends with
    | done hinside =>
      apply EndsWith.done
      rw [← hafter]
      exact hinside.leave
  | error e s' =>
    rw [hrun] at hends
    cases hends with
    | failed he => exact .failed he
    | unfinished => exact .unfinished

/-- The names known in front of a loop are the invariant of the loop. -/
theorem resolves_repeatWhile {condition : Exec Bool} {body : Exec Unit}
    (hcondition : condition.Resolves known known) (hbody : body.Resolves known known)
    (bound : Nat) : (repeatWhile condition body bound).Resolves known known := by
  induction bound with
  | zero =>
    intro s _
    exact .unfinished
  | succ bound ih =>
    apply hcondition.bind
    intro holds
    split
    · apply hbody.bind
      intro _
      exact ih
    · exact resolves_pure ()

end Exec

/-! ## Expressions and statements -/

namespace WordOp

open Exec

/-- An expression that has code finds its variables, for it has code only if all of them have slots. -/
theorem resolves_eval {s t : GenState WordVars} {e : Expr} {kind : StaticKind} {code : Code WordOp}
    (h : backend.Emits s e kind code t) :
    (ofEval e.eval).Resolves s.vars.scopes s.vars.scopes := by
  induction h with
  | literal _ _ => exact resolves_pure _
  | group _ ih => exact ih
  | unary _ _ _ ih =>
    rw [Expr.eval, ofEval_bind]
    apply ih.bind
    intro v
    exact resolves_ofExcept fun _ => UnaryOp.apply_isUndefined
  | binary hleft _ _ _ ihLeft ihRight =>
    rw [Expr.eval, ofEval_bind]
    apply ihLeft.bind
    intro l
    -- The left operand declares nothing, so both operands are evaluated under the same names.
    rw [emits_vars hleft] at ihRight
    rw [ofEval_bind]
    apply ihRight.bind
    intro r
    exact resolves_ofExcept fun _ => BinaryOp.apply_isUndefined
  | ident _ hcode =>
    obtain ⟨slot, hname, -, -⟩ := fetch_ok hcode
    exact resolves_fetch hname _
  | assign hvalue _ hstore ih =>
    obtain ⟨slot, hname, -, -⟩ := store_ok hstore
    rw [GenState.onLine_vars, emits_vars hvalue] at hname
    rw [Expr.eval, ofEval_bind]
    apply ih.bind
    intro v
    rw [ofEval_bind]
    apply (resolves_store hname _ v).bind
    intro _
    exact resolves_pure v
  | logical hleft _ _ _ _ ihLeft ihRight =>
    rw [Expr.eval, ofEval_bind]
    apply ihLeft.bind
    intro l
    rw [GenState.onLine_vars, emits_vars hleft] at ihRight
    split
    · exact resolves_pure l
    · exact ihRight

/-- A condition that has code looks for no variable in vain. -/
theorem resolves_holds {s t : GenState WordVars} {e : Expr} {kind : StaticKind}
    {code : Code WordOp} (h : backend.Emits s e kind code t) :
    (holds e).Resolves s.vars.scopes s.vars.scopes := by
  apply (resolves_eval h).bind
  intro v
  exact resolves_pure v.truthy

mutual

/-- A statement that has code finds its variables, and binds the names that the generator knows behind
it. -/
theorem resolves_exec {s t : GenState WordVars} {st : Stmt} {code : Code WordOp}
    (h : backend.EmitsStmt s st code t) (hplaced : st.placed = true) (bound : Nat) :
    (st.exec bound).Resolves s.vars.scopes t.vars.scopes := by
  cases h with
  | print hvalue _ =>
    rw [Stmt.exec, GenState.onLine_vars, emits_vars hvalue]
    apply (resolves_eval hvalue).bind
    intro v
    exact resolves_printLine _ v
  | expression hvalue _ =>
    rw [Stmt.exec, GenState.onLine_vars, emits_vars hvalue]
    apply (resolves_eval hvalue).bind
    intro v
    exact resolves_pure ()
  | var hvalue _ hdeclare =>
    obtain ⟨slot, hslot, -⟩ := declare_ok hdeclare
    rw [Stmt.exec]
    -- The initial value is evaluated before the name is declared, under the names in front of it.
    apply (resolves_eval hvalue).bind
    intro v
    have hdefine := resolves_define hslot v
    rw [GenState.onLine_vars, emits_vars hvalue] at hdefine
    exact hdefine
  | varUnset _ hdeclare =>
    obtain ⟨slot, hslot, -⟩ := declare_ok hdeclare
    rw [Stmt.exec]
    exact resolves_define hslot .nil
  | block hbody hline =>
    have hleave := (emitsStmt_scopes (.block hbody hline) hplaced).2 rfl
    rw [Stmt.placed] at hplaced
    rw [Stmt.exec, hleave]
    exact (resolves_execAll hbody hplaced bound).inScope hleave
  | ifThen hcondition _ hyes hno _ _ _ _ =>
    obtain ⟨⟨hdeclares, hplacedYes⟩, hplacedNo⟩ := Stmt.placed_ifThen.mp hplaced
    have hyesScopes := (emitsStmt_scopes hyes hplacedYes).2 hdeclares
    have hnoScopes := emitsElse_scopes hno hplacedNo
    have hyesResolves := resolves_exec hyes hplacedYes bound
    have hnoResolves := resolves_else hno hplacedNo bound
    -- Neither branch declares a name here, so the same names are known behind both of them.
    rw [hnoScopes, GenState.onLine_vars] at hnoResolves ⊢
    rw [hyesScopes, GenState.onLine_vars, emits_vars hcondition] at hyesResolves hnoResolves ⊢
    rw [exec_ifThen]
    apply (resolves_holds hcondition).bind
    intro holds
    split
    · exact hyesResolves
    · exact hnoResolves
  | whileDo hcondition _ hbody _ _ _ _ =>
    obtain ⟨hdeclares, hplacedBody⟩ := Stmt.placed_whileDo.mp hplaced
    have hbodyScopes := (emitsStmt_scopes hbody hplacedBody).2 hdeclares
    have hbodyResolves := resolves_exec hbody hplacedBody bound
    rw [GenState.onLine_vars]
    rw [hbodyScopes, GenState.onLine_vars, emits_vars hcondition] at hbodyResolves ⊢
    rw [Stmt.exec]
    exact resolves_repeatWhile (resolves_holds hcondition) hbodyResolves bound

/-- An else branch that has code looks for no variable in vain. -/
theorem resolves_else {s t : GenState WordVars} {line : Nat} {no : Option Stmt}
    {code : Code WordOp} (h : backend.EmitsElse line s no code t)
    (hplaced : ∀ st ∈ no, st.declares = false ∧ st.placed = true) (bound : Nat) :
    (no.elim (pure ()) (Stmt.exec bound)).Resolves s.vars.scopes t.vars.scopes := by
  cases h with
  | none => exact resolves_pure ()
  | some hno => exact resolves_exec hno (hplaced _ rfl).2 bound

/-- Statements that have code look for no variable in vain, one after the other. -/
theorem resolves_execAll {s t : GenState WordVars} {sts : List Stmt} {code : Code WordOp}
    (h : backend.EmitsAll s sts code t) (hplaced : Stmt.allPlaced sts = true) (bound : Nat) :
    (Stmt.execAll bound sts).Resolves s.vars.scopes t.vars.scopes := by
  cases h with
  | nil =>
    rw [Stmt.execAll]
    exact resolves_pure ()
  | cons hfirst hrest =>
    rw [Stmt.allPlaced, Bool.and_eq_true] at hplaced
    rw [Stmt.execAll]
    apply (resolves_exec hfirst hplaced.1 bound).bind
    intro _
    exact resolves_execAll hrest hplaced.2 bound

end

end WordOp

/-! ## Programs -/

/-- Code for the word machine certifies that variables are declared before they are used. A program that
is parsed without errors and for which code is generated never ends in an undefined variable, whatever
takes its output and however long it runs. -/
theorem word_program_never_undefined {ts : List Token} {p : Program} {c : Chunk}
    (hparse : parseProgram ts = { result := p, errors := [] })
    (hc : Target.word.generate p = .ok c) (sink : Sink) (bound : Nat) :
    ∀ (name : String) (line : Nat) (s : Session),
      (Session.start sink).run bound p ≠ some (.error (.undefinedVariable name line), s) := by
  intro name line s hrun
  have hplaced := Grammar.allPlaced_of_declarations (program_of_parseProgram hparse)
  obtain ⟨code, t, hemits, -, -⟩ := WordOp.backend_lawful.program_eq_ok hc
  -- Nothing is known before the program, and nothing is bound.
  have hstart : (Session.start sink).scopes.Binds WordOp.backend.start.vars.scopes := by
    constructor
    · intro name hname
      exact hname
    · exact .nil
  have hends := WordOp.resolves_execAll hemits hplaced bound (Session.start sink) hstart
  unfold Session.run Exec.finish at hrun
  cases hstep : Stmt.execAll bound p (Session.start sink) with
  | ok _ _ =>
    rw [hstep] at hrun
    cases hrun
  | error halt _ =>
    rw [hstep] at hrun hends
    cases hends with
    | failed he =>
      cases hrun
      cases he
    | unfinished => cases hrun

/-- A variable that shadows the one it is initialised from, and a loop that declares a variable in each
of its two rounds: the run fails, but by the division behind the loop. -/
theorem word_program_never_undefined_shadowing :
    let ts : List Token :=
      [⟨.keyword .var_, "var", 1, none⟩, ⟨.identifier, "a", 1, none⟩,
        ⟨.symbol .equal, "=", 1, none⟩, ⟨.number, "1", 1, some (.int 1)⟩,
        ⟨.symbol .semicolon, ";", 1, none⟩, ⟨.symbol .leftBrace, "\x7b", 2, none⟩,
        ⟨.keyword .var_, "var", 2, none⟩, ⟨.identifier, "a", 2, none⟩,
        ⟨.symbol .equal, "=", 2, none⟩, ⟨.identifier, "a", 2, none⟩,
        ⟨.symbol .semicolon, ";", 2, none⟩, ⟨.keyword .while_, "while", 3, none⟩,
        ⟨.symbol .leftParen, "(", 3, none⟩, ⟨.identifier, "a", 3, none⟩,
        ⟨.symbol .less, "<", 3, none⟩, ⟨.number, "3", 3, some (.int 3)⟩,
        ⟨.symbol .rightParen, ")", 3, none⟩, ⟨.symbol .leftBrace, "\x7b", 3, none⟩,
        ⟨.keyword .var_, "var", 4, none⟩, ⟨.identifier, "b", 4, none⟩,
        ⟨.symbol .equal, "=", 4, none⟩, ⟨.identifier, "a", 4, none⟩,
        ⟨.symbol .semicolon, ";", 4, none⟩, ⟨.identifier, "a", 5, none⟩,
        ⟨.symbol .equal, "=", 5, none⟩, ⟨.identifier, "b", 5, none⟩,
        ⟨.symbol .plus, "+", 5, none⟩, ⟨.number, "1", 5, some (.int 1)⟩,
        ⟨.symbol .semicolon, ";", 5, none⟩, ⟨.symbol .rightBrace, "\x7d", 6, none⟩,
        ⟨.symbol .rightBrace, "\x7d", 7, none⟩, ⟨.keyword .print_, "print", 8, none⟩,
        ⟨.identifier, "a", 8, none⟩, ⟨.symbol .slash, "/", 8, none⟩,
        ⟨.number, "0", 8, some (.int 0)⟩, ⟨.symbol .semicolon, ";", 8, none⟩]
    ∃ p c, parseProgram ts = { result := p, errors := [] } ∧ Target.word.generate p = .ok c ∧
      ((Session.start .unlimited).run 9 p).map Prod.fst = some (.error (.divisionByZero 8)) ∧
      ∀ sink bound name line s,
        (Session.start sink).run bound p ≠ some (.error (.undefinedVariable name line), s) := by
  intro ts
  let p : Program := (parseProgram ts).result
  have herrors : (parseProgram ts).errors = [] := by decide +kernel
  have hparse : parseProgram ts = { result := p, errors := [] } := by
    rw [← herrors]
  have hok : (Target.word.generate p).isOk = true := by decide +kernel
  have hrun : ((Session.start .unlimited).run 9 p).map Prod.fst
      = some (.error (.divisionByZero 8)) := by decide +kernel
  cases hc : Target.word.generate p with
  | error e =>
    rw [hc] at hok
    cases hok
  | ok c => exact ⟨p, c, hparse, hc, hrun, word_program_never_undefined hparse hc⟩

-- Were a declaration allowed as a branch, there would be code for a program that needs the branch.
example :
    let p : Program := [.ifThen 1 (.literal 1 (.bool false)) (.var 1 "a" none) none,
      .print 2 (.ident 2 "a")]
    (Target.word.generate p).isOk = true ∧
      ((Session.start .unlimited).run 1 p).map Prod.fst
        = some (.error (.undefinedVariable "a" 2)) :=
  ⟨rfl, rfl⟩

end Scriptlet
