import Scriptlet.Proofs.Failures
import Scriptlet.Proofs.Lookahead
import Scriptlet.Proofs.Progress

/-! # Where names and literals come from

A parser invents nothing. The atoms of the expressions that it gives, and the names to which they assign,
are those of tokens that stood in front of its cursor. This holds of every result, also of what is left of
a program with errors in it; so whatever is known of all tokens of an input is known of all atoms.

`Parse.Makes` carries the tokens along: as long as all tokens still to be read have a property, what is
made of them is made of tokens with that property, and those behind it still have it.

## Main statements

* `parseProgram_madeOf`, `parseExpression_madeOf`: the expressions that either parser gives are made of
  the tokens of its input.
-/

namespace Scriptlet

open Relation

variable {T : Token → Prop}

/-! ## Expressions made of tokens -/

/-- The atoms of the expression, and the names to which it assigns, stand for tokens with the property. -/
inductive Expr.MadeOf (T : Token → Prop) : Expr → Prop where
  | atom {t : Token} {e : Expr} (ht : T t) (h : Expr.ofToken? t = some e) : MadeOf T e
  | group {line : Nat} {inner : Expr} (h : MadeOf T inner) : MadeOf T (.group line inner)
  | unary {line : Nat} {op : UnaryOp} {operand : Expr} (h : MadeOf T operand) :
      MadeOf T (.unary line op operand)
  | join {line : Nat} {op : Connective} {left right : Expr} (hleft : MadeOf T left)
      (hright : MadeOf T right) : MadeOf T (op.join line left right)
  | assign {t : Token} {line : Nat} {name : String} {value : Expr} (ht : T t)
      (h : Expr.ofToken? t = some (.ident line name)) (hvalue : MadeOf T value) :
      MadeOf T (.assign line name value)

/-- The expressions in the statement are made of tokens with the property. -/
def Stmt.MadeOf (T : Token → Prop) (st : Stmt) : Prop :=
  ∀ e ∈ st.expressions, e.MadeOf T

namespace Expr

/-- What a token stands for has no parts. -/
theorem parts_of_token {t : Token} {e : Expr} (h : ofToken? t = some e) : e.parts = [e] := by
  unfold ofToken? at h
  split at h <;> cases h <;> rfl

/-- The parts of a connective are itself and those of its operands. -/
theorem parts_join (op : Connective) (line : Nat) (left right : Expr) :
    (op.join line left right).parts = op.join line left right :: (left.parts ++ right.parts) := by
  cases op <;> rfl

/-- What an expression is made of is made of the same tokens. -/
theorem MadeOf.of_mem_parts {e part : Expr} (h : e.MadeOf T) (hpart : part ∈ e.parts) :
    part.MadeOf T := by
  -- on how the expression was made: a part is the whole, or part of an operand
  induction h with
  | atom ht h =>
    rw [parts_of_token h, List.mem_singleton] at hpart
    rw [hpart]
    exact .atom ht h
  | group h ih =>
    rcases List.mem_cons.mp hpart with rfl | hpart
    · exact .group h
    · exact ih hpart
  | unary h ih =>
    rcases List.mem_cons.mp hpart with rfl | hpart
    · exact .unary h
    · exact ih hpart
  | join hleft hright ihleft ihright =>
    rw [parts_join, List.mem_cons, List.mem_append] at hpart
    rcases hpart with rfl | hpart | hpart
    · exact .join hleft hright
    · exact ihleft hpart
    · exact ihright hpart
  | assign ht h hvalue ih =>
    rcases List.mem_cons.mp hpart with rfl | hpart
    · exact .assign ht h hvalue
    · exact ih hpart

end Expr

namespace Stmt

/-- Statements made of such tokens have expressions made of them. -/
theorem madeOf_all {body : List Stmt} (h : ∀ st ∈ body, st.MadeOf T) :
    ∀ e ∈ expressionsOfAll body, e.MadeOf T := by
  induction body with
  | nil => exact fun e he => absurd he List.not_mem_nil
  | cons st body ih =>
    obtain ⟨hst, hbody⟩ := List.forall_mem_cons.mp h
    exact List.forall_mem_append.mpr ⟨hst, ih hbody⟩

end Stmt

/-! ## Parsers and the tokens in front of them -/

/-- All tokens that are still to be read have the property. -/
def Cursor.Offers (T : Token → Prop) (c : Cursor) : Prop :=
  ∀ t ∈ c.rest, T t

/-- A cursor that moves on offers fewer tokens. -/
theorem Cursor.Offers.steps {c c' : Cursor} (h : c.Offers T) (hsteps : ReflTransGen Step c c') :
    c'.Offers T := by
  induction hsteps with
  | refl => exact h
  | tail _ hstep ih =>
    cases hstep with
    | note e => exact ih
    | read hread =>
      -- one token less
      cases hread
      exact fun t ht => ih t (List.mem_cons_of_mem _ ht)

/-- The cursor is in front of a token with the property, or at the end. -/
theorem Cursor.Offers.current {c : Cursor} (h : c.Offers T) :
    T c.current ∨ c.current.kind = .endOfInput := by
  obtain ⟨_ | ⟨t, rest⟩, line, n, es⟩ := c
  · exact .inr rfl
  · exact .inl (h t List.mem_cons_self)

namespace Parse

variable {α β : Type}

/-- Where all tokens still to be read have the property `T`, a result of the parser has the property
`P`; however the parser ends, the tokens behind it still have theirs. -/
structure Makes (T : Token → Prop) (p : Parse α) (P : α → Prop) : Prop where
  ok {c c' : Cursor} {a : α} (hc : c.Offers T) (h : p c = .ok a c') : P a ∧ c'.Offers T
  error {c c' : Cursor} {e : SyntaxError} (hc : c.Offers T) (h : p c = .error e c') : c'.Offers T

section Makes

variable {P : α → Prop} {Q : β → Prop}

/-- Moving by steps leaves the tokens behind as they are. -/
theorem Makes.of_within {p : Parse α} (hp : p.Within Cursor.Step)
    (hok : ∀ {c c' : Cursor} {a : α}, c.Offers T → p c = .ok a c' → P a) : p.Makes T P := by
  constructor
  · intro c c' a hc h
    exact ⟨hok hc h, hc.steps (hp.steps_ok h)⟩
  · intro c c' e hc h
    exact hc.steps (hp.steps_error h)

/-- A parser whose results do not matter. -/
theorem Makes.anything {p : Parse α} (hp : p.Within Cursor.Step) : p.Makes T fun _ => True :=
  .of_within hp fun _ _ => trivial

/-- What the first parser makes may be used by the next one. -/
theorem Makes.bind {p : Parse α} {f : α → Parse β} (hp : p.Makes T P)
    (hf : ∀ a, P a → (f a).Makes T Q) : (p >>= f).Makes T Q := by
  constructor
  · intro c c' b hc h
    obtain ⟨a, c₁, hfirst, hsecond⟩ := EStateM.bind_eq_ok h
    obtain ⟨ha, hc₁⟩ := hp.ok hc hfirst
    exact (hf a ha).ok hc₁ hsecond
  · intro c c' e hc h
    rcases EStateM.bind_eq_error h with hfirst | ⟨a, c₁, hfirst, hsecond⟩
    · exact hp.error hc hfirst
    · obtain ⟨ha, hc₁⟩ := hp.ok hc hfirst
      exact (hf a ha).error hc₁ hsecond

theorem Makes.pure {a : α} (h : P a) : (Pure.pure a : Parse α).Makes T P := by
  refine .of_within (.pure a) ?_
  intro c c' b _ hb
  cases hb
  exact h

/-- An attempt never fails; it says how the parser has ended. -/
theorem attempt_cases (p : Parse α) (c : Cursor) :
    (∃ a c', p c = .ok a c' ∧ attempt p c = .ok (.ok a) c') ∨
      ∃ e c', p c = .error e c' ∧ attempt p c = .ok (.error e) c' := by
  cases hpc : p c with
  | ok a c' => exact .inl ⟨a, c', rfl, by rw [attempt, hpc]⟩
  | error e c' => exact .inr ⟨e, c', rfl, by rw [attempt, hpc]⟩

/-- A parser that is attempted makes what it makes. -/
theorem Makes.attempt {p : Parse α} (hp : p.Makes T P) :
    (attempt p).Makes T fun r => ∀ a, r = .ok a → P a := by
  constructor
  · intro c c' r hc h
    rcases attempt_cases p c with ⟨a, c₁, hpc, hattempt⟩ | ⟨e, c₁, hpc, hattempt⟩
    · cases h.symm.trans hattempt
      obtain ⟨ha, hc'⟩ := hp.ok hc hpc
      refine ⟨fun b hb => ?_, hc'⟩
      cases hb
      exact ha
    -- the error is caught: there is no result, and the tokens behind it are as offered
    · cases h.symm.trans hattempt
      refine ⟨fun b hb => ?_, hp.error hc hpc⟩
      cases hb
  · intro c c' e hc h
    rcases attempt_cases p c with ⟨_, _, -, hattempt⟩ | ⟨_, _, -, hattempt⟩ <;>
      cases h.symm.trans hattempt

/-- The next token is one of those offered, or the end. -/
theorem peek_makes : peek.Makes T fun t => T t ∨ t.kind = .endOfInput := by
  refine .of_within peek_within ?_
  intro c c' t hc h
  cases h
  exact hc.current

/-- A parser that fails makes nothing. -/
theorem noExpression_makes : (noExpression : Parse α).Makes T P := by
  refine .of_within noExpression_within ?_
  intro c c' a _ h
  cases h

theorem advance_makes : advance.Makes T fun _ => True :=
  .anything advance_reads.step

theorem takeIf_makes (f : TokenKind → Option α) : (takeIf f).Makes T fun _ => True :=
  .anything (takeIf_reads f).step

theorem take?_makes (kind : TokenKind) : (take? kind).Makes T fun _ => True :=
  .anything (take?_reads kind).step

theorem expect_makes (kind : TokenKind) (error : String → Nat → SyntaxError) :
    (expect kind error).Makes T fun _ => True :=
  .anything (expect_reads kind error).step

theorem record_makes (e : SyntaxError) : (record e).Makes T fun _ => True :=
  .anything (record_within e)

end Makes

/-- A token that stands for an expression is not the end of the input. -/
theorem madeOf_token {t : Token} {e : Expr} (ht : T t ∨ t.kind = .endOfInput)
    (h : Expr.ofToken? t = some e) : T t := by
  rcases ht with ht | hend
  · exact ht
  · simp [Expr.ofToken?, hend] at h

/-! ## Expressions by levels -/

section Expressions

variable {nested operand target : Parse Expr}

/-- A group is made of what it encloses. -/
theorem closeGroup_makes {line : Nat} {inner : Expr} (h : inner.MadeOf T) :
    (closeGroup >>= fun _ => pure (.group line inner)).Makes T (Expr.MadeOf T) :=
  (expect_makes _ _).bind fun _ _ => .pure (.group h)

/-- A primary expression is an atom or a group. -/
theorem primary_makes (h : nested.Makes T (Expr.MadeOf T)) :
    (primary nested).Makes T (Expr.MadeOf T) := by
  refine peek_makes.bind fun t ht => ?_
  split
  · next e he => exact advance_makes.bind fun _ _ => .pure (.atom (madeOf_token ht he) he)
  · split
    · exact advance_makes.bind fun _ _ => h.bind fun inner hinner => closeGroup_makes hinner
    · exact noExpression_makes

/-- A prefix operator adds no atom. -/
theorem unary_makes (h : operand.Makes T (Expr.MadeOf T)) (bound : Nat) :
    (unary operand bound).Makes T (Expr.MadeOf T) := by
  induction bound with
  | zero => exact h
  | succ bound ih =>
    refine (takeIf_makes _).bind fun o _ => ?_
    split
    · exact ih.bind fun e he => .pure (.unary he)
    · exact h

/-- Connectives add no atoms. -/
theorem chain_makes (h : operand.Makes T (Expr.MadeOf T)) (level : Precedence) (bound : Nat)
    {left : Expr} (hleft : left.MadeOf T) :
    (chain level operand bound left).Makes T (Expr.MadeOf T) := by
  induction bound generalizing left with
  | zero => exact .pure hleft
  | succ bound ih =>
    refine (takeIf_makes _).bind fun o _ => ?_
    split
    · exact h.bind fun right hright => ih (.join hleft hright)
    · exact .pure hleft

/-- So an expression on any level of connectives is made of tokens that were offered. -/
theorem levels_makes (h : operand.Makes T (Expr.MadeOf T)) (bound : Nat) (ls : List Precedence) :
    (levels bound operand ls).Makes T (Expr.MadeOf T) := by
  induction ls with
  | nil => exact h
  | cons level tighter ih => exact ih.bind fun left hleft => chain_makes ih level bound hleft

/-- A name that is an expression of its own stands for a token. -/
theorem madeOf_ident {line : Nat} {name : String} (h : (Expr.ident line name).MadeOf T) :
    ∃ t, T t ∧ Expr.ofToken? t = some (.ident line name) := by
  generalize he : Expr.ident line name = e at h
  cases h with
  | @atom t _ ht h => exact ⟨t, ht, h⟩
  | @join _ op => cases op <;> cases he
  | group | unary | assign => cases he

/-- Where the target is no variable, the target is what is left. -/
theorem assignment_makes (hnested : nested.Makes T (Expr.MadeOf T))
    (htarget : target.Makes T (Expr.MadeOf T)) :
    (assignment nested target).Makes T (Expr.MadeOf T) := by
  refine htarget.bind fun e he => (take?_makes _).bind fun o _ => ?_
  split
  · exact .pure he
  · refine hnested.bind fun value hvalue => ?_
    split
    · -- the target was read as a variable, so its name is that of a token
      obtain ⟨t, ht, h⟩ := madeOf_ident he
      exact .pure (.assign ht h hvalue)
    · -- the value is dropped
      exact (record_makes _).bind fun _ _ => .pure he

/-- Expressions are made of tokens that were offered. -/
theorem expression_makes (bound : Nat) : (expression bound).Makes T (Expr.MadeOf T) := by
  induction bound with
  | zero => exact noExpression_makes
  | succ bound ih =>
    exact assignment_makes ih (levels_makes (unary_makes (primary_makes ih) _) _ _)

end Expressions

/-! ## Statements -/

section Statements

variable {inner : Parse Stmt}

theorem semicolon_makes (after : Clause) : (semicolon after).Makes T fun _ => True :=
  (expect_makes _ _).bind fun _ _ => .pure trivial

theorem condition_makes (bound : Nat) (keyword : Keyword) :
    (condition bound keyword).Makes T (Expr.MadeOf T) :=
  (expect_makes _ _).bind fun _ _ => (expression_makes bound).bind fun _ he =>
    (expect_makes _ _).bind fun _ _ => .pure he

/-- The expression in a declaration is made of such tokens. -/
theorem varDeclaration_makes (bound : Nat) : (varDeclaration bound).Makes T (Stmt.MadeOf T) := by
  refine peek_makes.bind fun keyword _ => advance_makes.bind fun _ _ =>
    (expect_makes _ _).bind fun name _ => (take?_makes _).bind fun o _ => ?_
  cases o with
  | none => exact (semicolon_makes _).bind fun _ _ => .pure fun e he => absurd he List.not_mem_nil
  | some line =>
    have hinitial : (some <$> expression bound).Makes T fun o => ∀ e ∈ o.toList, e.MadeOf T := by
      rw [map_eq_pure_bind]
      exact (expression_makes bound).bind fun e he => .pure (List.forall_mem_singleton.mpr he)
    exact hinitial.bind fun initial h => (semicolon_makes _).bind fun _ _ => .pure h

/-- A declaration with an error in it makes nothing. -/
theorem declaration_makes (h : inner.Makes T (Stmt.MadeOf T)) (bound : Nat) :
    (declaration bound inner).Makes T fun o => ∀ st ∈ o.toList, st.MadeOf T := by
  have hget : (get : Parse Cursor).Makes T fun _ => True := .anything get_sound.within
  refine hget.bind fun _ _ => peek_makes.bind fun first _ => ?_
  have hitem : (if first.kind = .keyword .var_ then varDeclaration bound else inner).Makes T
      (Stmt.MadeOf T) := by
    split
    · exact varDeclaration_makes bound
    · exact h
  refine hitem.attempt.bind fun r hr => ?_
  cases r with
  | ok st => exact .pure (List.forall_mem_singleton.mpr (hr st rfl))
  | error e =>
    -- nothing is left of the declaration, and the next one is made of tokens further on
    refine (record_makes e).bind fun _ _ => (Makes.anything (resync_within _)).bind fun _ _ => ?_
    exact .pure fun st hst => absurd hst List.not_mem_nil

/-- Declarations in sequence are made of such tokens. -/
theorem declarations_makes {decl : Parse (Option Stmt)}
    (h : decl.Makes T fun o => ∀ st ∈ o.toList, st.MadeOf T) (stops : TokenKind → Bool) (bound : Nat)
    {found : List Stmt} (hfound : ∀ st ∈ found, st.MadeOf T) :
    (declarations stops decl bound found).Makes T fun p => ∀ st ∈ p, st.MadeOf T := by
  induction bound generalizing found with
  | zero => exact .pure fun st hst => hfound st (List.mem_reverse.mp hst)
  | succ bound ih =>
    refine peek_makes.bind fun next _ => ?_
    split
    · exact .pure fun st hst => hfound st (List.mem_reverse.mp hst)
    · exact h.bind fun o ho => ih (List.forall_mem_append.mpr ⟨ho, hfound⟩)

theorem statement_makes (bound : Nat) : (statement bound).Makes T (Stmt.MadeOf T) := by
  induction bound with
  | zero => exact noExpression_makes
  | succ bound ih =>
    refine peek_makes.bind fun first _ => ?_
    split
    · -- `print`
      exact advance_makes.bind fun _ _ => (expression_makes _).bind fun e he =>
        (semicolon_makes _).bind fun _ _ => .pure (List.forall_mem_singleton.mpr he)
    · -- `if`, with an `else` or without
      refine advance_makes.bind fun _ _ => (condition_makes _ _).bind fun e he =>
        ih.bind fun yes hyes => (take?_makes _).bind fun o _ => ?_
      split
      · exact ih.bind fun no hno =>
          .pure (List.forall_mem_cons.mpr ⟨he, List.forall_mem_append.mpr ⟨hyes, hno⟩⟩)
      · exact .pure (List.forall_mem_cons.mpr ⟨he, hyes⟩)
    · -- `while`
      exact advance_makes.bind fun _ _ => (condition_makes _ _).bind fun e he =>
        ih.bind fun body hbody => .pure (List.forall_mem_cons.mpr ⟨he, hbody⟩)
    · -- a block
      refine advance_makes.bind fun _ _ => ?_
      have hbody := declarations_makes (declaration_makes ih (bound + 1)) (· == .symbol .rightBrace)
        (bound + 1) fun _ hst => absurd hst List.not_mem_nil
      exact hbody.bind fun body h => (expect_makes _ _).bind fun _ _ => .pure (Stmt.madeOf_all h)
    · -- an expression statement
      exact (expression_makes _).bind fun e he => (semicolon_makes _).bind fun _ _ =>
        .pure (List.forall_mem_singleton.mpr he)

theorem program_makes (bound : Nat) : (program bound).Makes T fun p => ∀ st ∈ p, st.MadeOf T :=
  declarations_makes (declaration_makes (statement_makes bound) bound) _ bound
    fun _ hst => absurd hst List.not_mem_nil

end Statements

/-! ## Expressions by climbing -/

section Climbing

variable {nested : Precedence → Parse Expr}

/-- An operand is an atom, an assignment, an operation or a group. -/
theorem operand_makes (h : ∀ level, (nested level).Makes T (Expr.MadeOf T)) (level : Precedence) :
    (operand nested level).Makes T (Expr.MadeOf T) := by
  refine peek_makes.bind fun t ht => ?_
  split
  · next line name he =>
    have htoken := madeOf_token ht he
    refine advance_makes.bind fun _ _ => ?_
    -- a name begins an assignment where the level allows one
    split
    · refine (take?_makes _).bind fun o _ => ?_
      split
      · exact (h _).bind fun value hvalue => .pure (.assign htoken he hvalue)
      · exact .pure (.atom htoken he)
    · exact .pure (.atom htoken he)
  · next e _ he => exact advance_makes.bind fun _ _ => .pure (.atom (madeOf_token ht he) he)
  · exact advance_makes.bind fun _ _ => (h _).bind fun e he => .pure (.unary he)
  · split
    · exact advance_makes.bind fun _ _ => (h _).bind fun inner hinner => closeGroup_makes hinner
    · exact noExpression_makes

/-- Climbing adds no atoms. -/
theorem extend_makes (h : ∀ level, (nested level).Makes T (Expr.MadeOf T)) (level : Precedence)
    (bound : Nat) {left : Expr} (hleft : left.MadeOf T) :
    (extend nested level bound left).Makes T (Expr.MadeOf T) := by
  induction bound generalizing left with
  | zero => exact .pure hleft
  | succ bound ih =>
    refine (takeIf_makes _).bind fun o _ => ?_
    split
    · exact (h _).bind fun right hright => ih (.join hleft hright)
    · exact .pure hleft

/-- Climbing makes expressions of tokens that were offered. -/
theorem climb_makes (bound : Nat) (level : Precedence) :
    (climb bound level).Makes T (Expr.MadeOf T) := by
  induction bound generalizing level with
  | zero => exact noExpression_makes
  | succ bound ih =>
    rw [climb_succ]
    have hextended : (operand (climb bound) level >>= extend (climb bound) level (bound + 1)).Makes T
        (Expr.MadeOf T) :=
      (operand_makes ih level).bind fun left hleft => extend_makes ih level _ hleft
    refine hextended.bind fun e he => ?_
    unfold finishClimb
    split
    · exact (Makes.anything refuseAssignment_reads.step).bind fun _ _ => .pure he
    · exact .pure he

theorem loneExpression_makes (bound : Nat) :
    (loneExpression bound).Makes T fun o => ∀ e, o = some e → e.MadeOf T := by
  refine (climb_makes bound .assignment).attempt.bind fun r hr => ?_
  cases r with
  | error e => exact (record_makes e).bind fun _ _ => .pure fun _ h => by cases h
  | ok e =>
    have he : ∀ e', some e = some e' → e'.MadeOf T := by
      intro e' h
      cases h
      exact hr e rfl
    refine (take?_makes _).bind fun _ _ => peek_makes.bind fun next _ => ?_
    split
    · exact (record_makes _).bind fun _ _ => .pure he
    · exact .pure he

end Climbing

end Parse

/-! ## Whole inputs -/

/-- At the start, all tokens in front of the end are offered. -/
theorem offers_ofTokens {ts : List Token} (h : ∀ t ∈ ts, t.kind ≠ .endOfInput → T t) :
    (Cursor.ofTokens ts).Offers T := by
  intro t ht
  have hkind := List.mem_takeWhile_imp (show t ∈ bodyOf ts from ht)
  exact h t ((List.takeWhile_prefix _).subset ht) (of_decide_eq_true hkind)

/-- The expressions of a program are made of the tokens of its input, whether it has errors or not. -/
theorem parseProgram_madeOf {ts : List Token} (h : ∀ t ∈ ts, t.kind ≠ .endOfInput → T t) {e : Expr}
    (he : e ∈ Stmt.expressionsOfAll (parseProgram ts).result) : e.MadeOf T := by
  have hmakes : (Parse.program (ts.length + 1)).Makes T fun p => ∀ st ∈ p, st.MadeOf T :=
    Parse.program_makes _
  obtain ⟨p, c, hrun, -⟩ := Parse.program_reads_all ts (Nat.lt_succ_of_le (length_bodyOf_le ts))
  have hresult : (parseProgram ts).result = p := by rw [parseProgram, hrun]
  have hp := (hmakes.ok (offers_ofTokens h) hrun).1
  rw [hresult] at he
  exact Stmt.madeOf_all hp e he

/-- The expression that is read by itself is made of the tokens of its input. -/
theorem parseExpression_madeOf {ts : List Token} (h : ∀ t ∈ ts, t.kind ≠ .endOfInput → T t)
    {e : Expr} (he : (parseExpression ts).result = some e) : e.MadeOf T := by
  have hmakes : (Parse.loneExpression (ts.length + 1)).Makes T fun o => ∀ e, o = some e → e.MadeOf T :=
    Parse.loneExpression_makes _
  cases hrun : Parse.loneExpression (ts.length + 1) (.ofTokens ts) with
  | ok o c =>
    have hresult : (parseExpression ts).result = o := by rw [parseExpression, hrun]
    exact (hmakes.ok (offers_ofTokens h) hrun).1 e (hresult.symm.trans he)
  | error error c =>
    have hresult : (parseExpression ts).result = none := by rw [parseExpression, hrun]
    rw [hresult] at he
    cases he

end Scriptlet
