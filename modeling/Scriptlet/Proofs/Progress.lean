import Scriptlet.Proofs.Accounts
import Scriptlet.Proofs.Climbing

/-! # Parsers make progress and stay in bounds

A parser only ever reads the next token or notes an error, so its cursor cannot leave the tokens it
was given. The bounds on nesting and on rounds never decide anything: every parser calls itself only
where fewer tokens are left than where it was called (`expressionAround_agree`,
`statementAround_agree`, `climbAround_agree`), and every round of a loop reads a token. So bounds above
the number of tokens are as good as none.

## Main statement

* `parsing_progresses`: on every list of tokens, both parsers stay in front of the first end mark, every
  declaration reads a token, parsing ends, and it notes no more errors than there are tokens.
-/

namespace Scriptlet

open Relation

namespace Parse

variable {α β : Type}

/-! ## Bounds that are never reached -/

/-- The two parsers do the same at `c`. -/
def AgreeAt (c : Cursor) (p q : Parse α) : Prop :=
  p c = q c

/-- The two parsers do the same wherever fewer than `n` tokens are left. -/
def Agree (n : Nat) (p q : Parse α) : Prop :=
  ∀ c, c.rest.length < n → p c = q c

section Agree

variable {c : Cursor} {n k : Nat}

theorem Agree.refl (n : Nat) (p : Parse α) : Agree n p p :=
  fun _ _ => rfl

/-- Where fewer than no tokens are left, all parsers do the same. -/
theorem Agree.none (p q : Parse α) : Agree 0 p q :=
  fun _ hc => absurd hc (Nat.not_lt_zero _)

/-- Parsers that do the same do so where fewer tokens are left. -/
theorem Agree.pred {p q : Parse α} (h : Agree n p q) : Agree (n - 1) p q :=
  fun c hc => h c (by omega)

/-- Where the first part leaves fewer tokens, the second parts need agree on those only. -/
theorem bind_agree {p q : Parse α} {f g : α → Parse β} (hc : c.rest.length < n) (hpq : p c = q c)
    (hp : p.Spares k c) (hfg : ∀ a, Agree (n - k) (f a) (g a)) : (p >>= f) c = (q >>= g) c := by
  cases h : p c with
  | error e c' => rw [EStateM.bind_of_error h, EStateM.bind_of_error (hpq.symm.trans h)]
  | ok a c' =>
    rw [EStateM.bind_of_ok h, EStateM.bind_of_ok (hpq.symm.trans h)]
    have hlength := hp.length_rest h
    exact hfg a c' (by omega)

/-- Parsers that do the same may be followed by ones that do: no parser gives tokens back. -/
theorem Agree.bind {p q : Parse α} {f g : α → Parse β} (hpq : Agree n p q)
    (hp : ∀ c, p.Spares 0 c) (hfg : ∀ a, Agree n (f a) (g a)) : Agree n (p >>= f) (q >>= g) :=
  fun c hc => bind_agree hc (hpq c hc) (hp c) hfg

/-- What comes behind may be anything, as long as it is the same. -/
theorem Agree.bind_same {p q : Parse α} (hpq : Agree n p q) (f : α → Parse β) :
    Agree n (p >>= f) (q >>= f) := by
  intro c hc
  cases h : p c with
  | error e c' => rw [EStateM.bind_of_error h, EStateM.bind_of_error ((hpq c hc).symm.trans h)]
  | ok a c' => rw [EStateM.bind_of_ok h, EStateM.bind_of_ok ((hpq c hc).symm.trans h)]

/-- Where a token was taken, the next parsers need to do the same with fewer tokens only. -/
theorem Takes.bind_agree {p : Parse (Option α)} {f g : Option α → Parse β} (hp : p.Takes)
    (hnone : Agree n (f none) (g none)) (hsome : ∀ a, Agree (n - 1) (f (some a)) (g (some a))) :
    Agree n (p >>= f) (p >>= g) := by
  intro c hc
  rcases hp c with h | ⟨a, hrest, h⟩
  · rw [EStateM.bind_of_ok h, EStateM.bind_of_ok h]
    exact hnone c hc
  · rw [EStateM.bind_of_ok h, EStateM.bind_of_ok h]
    have hlength := (spares_advance hrest).length_rest (advance_reads.step c)
    exact hsome a _ (by omega)

theorem peek_agree {f g : Token → Parse β}
    (h : ∀ c : Cursor, c.rest.length < n → AgreeAt c (f c.current) (g c.current)) :
    Agree n (peek >>= f) (peek >>= g) :=
  h

/-- Reading a token leaves one less. -/
theorem advance_agree {f g : Unit → Parse β} (hc : c.rest.length < n)
    (hkind : c.current.kind ≠ .endOfInput) (hfg : Agree (n - 1) (f ()) (g ())) :
    (advance >>= f) c = (advance >>= g) c :=
  bind_agree hc rfl (advance_spares hkind) fun _ => hfg

/-- Bounds that are the same up to the number of tokens go down together, one token at a time. -/
theorem bounds_induction {motive : (n bound bound' : Nat) → min bound n = min bound' n → Prop}
    (none : ∀ bound bound' h, motive 0 bound bound' h) (zero : ∀ n, motive n 0 0 rfl)
    (succ : ∀ n bound bound' (h : min (bound + 1) (n + 1) = min (bound' + 1) (n + 1)),
      motive n bound bound' (by omega) → motive (n + 1) (bound + 1) (bound' + 1) h)
    (n bound bound' : Nat) (h : min bound n = min bound' n) : motive n bound bound' h := by
  induction n generalizing bound bound' with
  | zero => exact none bound bound' h
  | succ n ih =>
    -- one bound without a round is the same as the other one only if that has none either
    cases bound with
    | zero =>
      obtain rfl : bound' = 0 := by omega
      exact zero (n + 1)
    | succ bound =>
      cases bound' with
      | zero => omega
      | succ bound' => exact succ n bound bound' h (ih bound bound' (by omega))

section Expressions

variable {nested nested' operand operand' target target' : Parse Expr} {rounds rounds' : Nat}

/-- A primary expression reads a token before it nests another one. -/
theorem primary_agree (h : Agree (n - 1) nested nested') :
    Agree n (primary nested) (primary nested') := by
  refine peek_agree fun c hc => ?_
  cases Expr.ofToken? c.current with
  | some e => rfl
  | none =>
    by_cases hopen : c.current.kind = .symbol .leftParen
    · rw [if_pos hopen, if_pos hopen]
      exact advance_agree hc (by rw [hopen]; decide) (h.bind_same _)
    · rw [if_neg hopen, if_neg hopen]
      rfl

/-- Rounds for more tokens than there are make no difference. -/
theorem unary_agree (h : Agree n operand operand') (hr : min rounds n = min rounds' n) :
    Agree n (unary operand rounds) (unary operand' rounds') := by
  induction n, rounds, rounds', hr using bounds_induction with
  | none => exact .none _ _
  | zero => exact h
  | succ n rounds rounds' hr ih =>
    refine (takeIf_takes _).bind_agree h ?_
    rintro ⟨op, line⟩
    exact (ih h.pred).bind_same _

/-- A chain needs no more rounds than there are tokens, as each reads a connective. -/
theorem chain_agree {level : Precedence} {left : Expr} (h : Agree n operand operand')
    (hoperand : operand.PaysItsWay) (hr : min rounds n = min rounds' n) :
    Agree n (chain level operand rounds left) (chain level operand' rounds' left) := by
  induction n, rounds, rounds', hr using bounds_induction generalizing left with
  | none => exact .none _ _
  | zero n => exact .refl n _
  | succ n rounds rounds' hr ih =>
    refine (takeIf_takes _).bind_agree (.refl _ _) ?_
    rintro ⟨op, line⟩
    exact h.pred.bind (fun c => (hoperand c).weaken) fun right => ih h.pred

theorem levels_agree (h : Agree n operand operand') (hoperand : operand.PaysItsWay)
    (hr : min rounds n = min rounds' n) (ls : List Precedence) :
    Agree n (levels rounds operand ls) (levels rounds' operand' ls) := by
  induction ls with
  | nil => exact h
  | cons level tighter ih =>
    have htighter := levels_paysItsWay hoperand rounds tighter
    exact ih.bind (fun c => (htighter c).weaken) fun left => chain_agree ih htighter hr

/-- An assignment reads its equals sign before its value. -/
theorem assignment_agree (hnested : Agree (n - 1) nested nested') (h : Agree n target target')
    (htarget : target.PaysItsWay) :
    Agree n (assignment nested target) (assignment nested' target') := by
  refine h.bind (fun c => (htarget c).weaken) fun e => ?_
  exact (take?_takes _).bind_agree (.refl n _) fun line => hnested.bind_same _

/-- Expressions around nested ones do the same if these do, with one token less. -/
theorem expressionAround_agree (h : Agree (n - 1) nested nested') (hnested : nested.PaysItsWay)
    (hr : min rounds n = min rounds' n) :
    Agree n (expressionAround nested rounds) (expressionAround nested' rounds') := by
  have hunary := unary_agree (primary_agree h) hr
  have hunary' := unary_paysItsWay (primary_paysItsWay hnested) rounds
  exact assignment_agree h (levels_agree hunary hunary' hr _) (levels_paysItsWay hunary' rounds _)

/-- Bounds that are the same up to the number of tokens make no difference to expressions. -/
theorem expression_agree {bound bound' : Nat} (hb : min bound n = min bound' n) :
    Agree n (expression bound) (expression bound') := by
  -- what is nested stands behind a token, so one round less is enough for it
  induction n, bound, bound', hb using bounds_induction with
  | none => exact .none _ _
  | zero n => exact .refl n _
  | succ n bound bound' hb ih =>
    rw [expression_succ, expression_succ]
    exact expressionAround_agree ih (expression_paysItsWay bound) hb

end Expressions

section Statements

variable {inner inner' : Parse Stmt} {bound bound' : Nat}

theorem condition_agree (hb : min bound n = min bound' n) (keyword : Keyword) :
    Agree n (condition bound keyword) (condition bound' keyword) :=
  (Agree.refl n _).bind (fun c => (expect_spares _ _ c).weaken) fun _ =>
    (expression_agree hb).bind_same _

theorem varDeclaration_agree (hb : min bound n = min bound' n) :
    Agree n (varDeclaration bound) (varDeclaration bound') := by
  refine peek_agree fun c hc => ?_
  refine bind_agree hc rfl (spares_of_reads advance_reads c) fun _ => ?_
  refine (Agree.refl n _).bind (fun c => (expect_spares _ _ c).weaken) fun name => ?_
  refine (take?_takes _).bind_agree (.refl n _) fun line => ?_
  have hvalue : Agree (n - 1) (some <$> expression bound) (some <$> expression bound') := by
    rw [map_eq_pure_bind, map_eq_pure_bind]
    exact (expression_agree (by omega)).bind_same _
  exact hvalue.bind_same _

theorem declaration_agree (h : Agree n inner inner') (hb : min bound n = min bound' n) :
    Agree n (declaration bound inner) (declaration bound' inner') := by
  intro c hc
  have hitem : item bound inner c.current c = item bound' inner' c.current c := by
    unfold item
    split
    · exact varDeclaration_agree hb c hc
    · exact h c hc
  cases hread : item bound inner c.current c with
  | ok s c' => rw [declaration_ok hread, declaration_ok (hitem.symm.trans hread)]
  | error e c' => rw [declaration_error hread, declaration_error (hitem.symm.trans hread)]

/-- Declarations in sequence need no more rounds than there are tokens, as each advances. -/
theorem declarations_agree {decl decl' : Parse (Option Stmt)} (h : Agree n decl decl')
    (hdecl : ∀ c, c.rest ≠ [] → decl.Advances c) (stops : TokenKind → Bool)
    (hr : min bound n = min bound' n) (found : List Stmt) :
    Agree n (declarations stops decl bound found) (declarations stops decl' bound' found) := by
  induction n, bound, bound', hr using bounds_induction generalizing found with
  | none => exact .none _ _
  | zero n => exact .refl n _
  | succ n bound bound' hr ih =>
    refine peek_agree fun c hc => ?_
    by_cases hstop : c.current.kind = .endOfInput ∨ stops c.current.kind = true
    · rw [if_pos hstop, if_pos hstop]
      rfl
    · rw [if_neg hstop, if_neg hstop]
      have hrest : c.rest ≠ [] := rest_ne_nil fun hend => hstop (.inl hend)
      -- a round reads a token, so one round less is enough behind it
      obtain ⟨o, c', hread, hsteps, -, hlt⟩ := hdecl c hrest
      have hposition := Cursor.position_add_length_rest hsteps
      have hread' := (h c hc).symm.trans hread
      have hnext := ih h.pred (o.toList ++ found) c' (by omega)
      rw [AgreeAt, EStateM.bind_of_ok hread, EStateM.bind_of_ok hread']
      exact hnext

/-- Statements around nested ones do the same if these do, with one token less. -/
theorem statementAround_agree (h : Agree (n - 1) inner inner') (hinner : inner.PaysItsWay)
    (hb : min bound n = min bound' n) :
    Agree n (statementAround inner bound) (statementAround inner' bound') := by
  have hb' : min bound (n - 1) = min bound' (n - 1) := by omega
  refine peek_agree fun c hc => ?_
  split
  · -- `print`
    next hkind =>
    exact advance_agree hc (by rw [hkind]; decide) ((expression_agree hb').bind_same _)
  · -- `if`
    next hkind =>
    refine advance_agree hc (by rw [hkind]; decide) ?_
    refine (condition_agree hb' _).bind (fun c => (condition_paysItsWay _ _ c).weaken) fun e => ?_
    refine h.bind (fun c => (hinner c).weaken) fun yes => ?_
    exact (take?_takes _).bind_agree (.refl _ _) fun line => h.pred.bind_same _
  · -- `while`
    next hkind =>
    refine advance_agree hc (by rw [hkind]; decide) ?_
    refine (condition_agree hb' _).bind (fun c => (condition_paysItsWay _ _ c).weaken) fun e => ?_
    exact h.bind_same _
  · -- a block
    next hkind =>
    refine advance_agree hc (by rw [hkind]; decide) ?_
    have hdecl : ∀ c : Cursor, c.rest ≠ [] → (declaration bound inner).Advances c :=
      fun c hc => declaration_advances hinner bound hc
    exact (declarations_agree (declaration_agree h hb') hdecl _ hb' []).bind_same _
  · -- an expression statement
    exact (expression_agree hb).bind_same _ c hc

/-- Bounds make no difference to statements. -/
theorem statement_agree (hb : min bound n = min bound' n) :
    Agree n (statement bound) (statement bound') := by
  induction n, bound, bound', hb using bounds_induction with
  | none => exact .none _ _
  | zero n => exact .refl n _
  | succ n bound bound' hb ih =>
    rw [statement_succ, statement_succ]
    exact statementAround_agree ih (statement_paysItsWay bound) hb

/-- Bounds make no difference to programs. -/
theorem program_agree (hb : min bound n = min bound' n) : Agree n (program bound) (program bound') := by
  have hdecl : ∀ c : Cursor, c.rest ≠ [] → (declaration bound (statement bound)).Advances c :=
    fun c hc => declaration_advances (statement_paysItsWay bound) bound hc
  exact declarations_agree (declaration_agree (statement_agree hb) hb) hdecl _ hb []

end Statements

section Climbing

variable {nested nested' : Precedence → Parse Expr} {rounds rounds' : Nat}

/-- Expressions of at least the given level around `nested` ones, with so many connectives. -/
def climbAround (nested : Precedence → Parse Expr) (rounds : Nat) (level : Precedence) :
    Parse Expr :=
  (operand nested level >>= extend nested level rounds) >>= finishClimb level

/-- An operand reads a token before it nests another expression. -/
theorem operand_agree (h : ∀ level, Agree (n - 1) (nested level) (nested' level))
    (level : Precedence) : Agree n (operand nested level) (operand nested' level) := by
  refine peek_agree fun c hc => ?_
  -- a name, another atom, a prefix operator, or a group
  split
  · next line name he =>
    have hatom : c.current.kind ≠ .endOfInput := by
      intro hend
      simp [Expr.ofToken?, hend] at he
    refine advance_agree hc hatom ?_
    split
    · exact (take?_takes _).bind_agree (.refl _ _) fun line => (h _).pred.bind_same _
    · exact .refl _ _
  · rfl
  · next op he hop =>
    have hunary : c.current.kind ≠ .endOfInput := by
      intro hend
      simp [UnaryOp.ofToken?, hend] at hop
    exact advance_agree hc hunary ((h _).bind_same _)
  · by_cases hopen : c.current.kind = .symbol .leftParen
    · rw [if_pos hopen, if_pos hopen]
      exact advance_agree hc (by rw [hopen]; decide) ((h _).bind_same _)
    · rw [if_neg hopen, if_neg hopen]
      rfl

/-- Climbing needs no more rounds than there are tokens. -/
theorem extend_agree (h : ∀ level, Agree (n - 1) (nested level) (nested' level))
    (hnested : ∀ level, (nested level).Within Cursor.Read) {level : Precedence}
    (hr : min rounds n = min rounds' n) (left : Expr) :
    Agree n (extend nested level rounds left) (extend nested' level rounds' left) := by
  induction n, rounds, rounds', hr using bounds_induction generalizing left with
  | none => exact .none _ _
  | zero n => exact .refl n _
  | succ n rounds rounds' hr ih =>
    refine (takeIf_takes _).bind_agree (.refl _ _) ?_
    rintro ⟨op, line⟩
    exact (h _).bind (spares_of_reads (hnested _)) fun right => ih (fun level => (h level).pred) _

/-- Climbing around nested expressions does the same if these do, with one token less. -/
theorem climbAround_agree (h : ∀ level, Agree (n - 1) (nested level) (nested' level))
    (hnested : ∀ level, (nested level).Within Cursor.Read) (hr : min rounds n = min rounds' n)
    (level : Precedence) :
    Agree n (climbAround nested rounds level) (climbAround nested' rounds' level) := by
  have hoperand := spares_of_reads (operand_reads hnested level)
  exact ((operand_agree h level).bind hoperand (extend_agree h hnested hr)).bind_same _

/-- Bounds make no difference to climbing. -/
theorem climb_agree {bound bound' : Nat} (hb : min bound n = min bound' n) (level : Precedence) :
    Agree n (climb bound level) (climb bound' level) := by
  induction n, bound, bound', hb using bounds_induction generalizing level with
  | none => exact .none _ _
  | zero n => exact .refl n _
  | succ n bound bound' hb ih =>
    rw [climb_succ, climb_succ]
    have hnested : ∀ level, Agree (n + 1 - 1) (climb bound level) (climb bound' level) := ih
    exact climbAround_agree hnested (climb_reads bound) hb level

theorem loneExpression_agree {bound bound' : Nat} (hb : min bound n = min bound' n) :
    Agree n (loneExpression bound) (loneExpression bound') := by
  have hattempt : Agree n (attempt (climb bound .assignment)) (attempt (climb bound' .assignment)) := by
    intro c hc
    rw [attempt, attempt, climb_agree hb .assignment c hc]
  exact hattempt.bind_same _

end Climbing

end Agree

/-! ## Whole inputs -/

theorem declaration_within (bound depth : Nat) :
    (declaration bound (statement depth)).Within Cursor.Step :=
  (declaration_sound (statement_sound depth) bound).within

theorem program_within (bound : Nat) : (program bound).Within Cursor.Step :=
  (declarations_sound (declaration_sound (statement_sound bound) bound) bound []).within

/-- Where the end comes next, all tokens have been read. -/
theorem rest_eq_nil_of_steps {ts : List Token} {c : Cursor}
    (hsteps : ReflTransGen Cursor.Step (.ofTokens ts) c) (hend : c.current.kind = .endOfInput) :
    c.rest = [] := by
  have hinside := (Cursor.inside_ofTokens ts).steps hsteps
  have hsuffix : c.rest <:+ bodyOf ts := by
    rw [hinside.rest_eq]
    exact List.drop_suffix _ _
  refine rest_eq_nil hsuffix fun t ht => ?_
  have hcurrent : c.current = t := by
    rw [Cursor.current, Option.mem_def.mp ht]
    rfl
  rwa [hcurrent] at hend

/-- Reading a program always succeeds; with rounds for all tokens it reads all of them. -/
theorem program_reads_all (ts : List Token) {bound : Nat} (h : (bodyOf ts).length < bound) :
    ∃ p c, program bound (.ofTokens ts) = .ok p c ∧ ReflTransGen Cursor.Step (.ofTokens ts) c ∧
      Cursor.Spares 0 (.ofTokens ts) c ∧ c.rest = [] := by
  have hdecl : ∀ c : Cursor, c.rest ≠ [] → (declaration bound (statement bound)).Advances c :=
    fun c hc => declaration_advances (statement_paysItsWay bound) bound hc
  obtain ⟨p, c, hrun, hsteps, hspares, hend⟩ :=
    declarations_end hdecl (fun _ => false) bound [] (.ofTokens ts)
  refine ⟨p, c, hrun, hsteps, hspares, rest_eq_nil_of_steps hsteps ?_⟩
  -- the loop has stopped by itself, and nothing stops it but the end
  rcases hend h with hkind | hkind
  · exact hkind
  · cases hkind

end Parse

/-- There are at most as many errors as tokens. -/
theorem parseProgram_errors_le (ts : List Token) :
    (parseProgram ts).errors.length ≤ (bodyOf ts).length := by
  obtain ⟨p, c, hrun, hsteps, hspares, -⟩ :=
    Parse.program_reads_all ts (Nat.lt_succ_of_le (length_bodyOf_le ts))
  have hinside := (Cursor.inside_ofTokens ts).steps hsteps
  have herrors : (parseProgram ts).errors = c.errors.toList := by rw [parseProgram, hrun]
  have hle : c.errors.size ≤ c.position := by simpa [Cursor.Spares, Cursor.ofTokens] using hspares
  calc (parseProgram ts).errors.length = c.errors.size := by rw [herrors, Array.length_toList]
    _ ≤ c.position := hle
    _ ≤ (bodyOf ts).length := hinside.position_le

open Parse in
/-- On every list of tokens both parsers make progress and stay in bounds.

* Every parser, called anywhere, moves its cursor by reading the next token and noting errors only; so
  on the whole way the cursor never gets past the first end mark.
* A declaration that is called in front of a token leaves the cursor behind it, whether it succeeds or
  fails and reading resumes at a boundary.
* A parser calls itself only where fewer tokens are left than where it was called itself. So parsing
  ends: above the number of tokens, the bounds decide nothing, and a program is read to its end.
* A program has no more errors than tokens in front of the first end mark. -/
theorem parsing_progresses :
    (∀ (bound depth : Nat) (level : Precedence),
      (program bound).Within Cursor.Step ∧
      (declaration bound (statement depth)).Within Cursor.Step ∧
      (statement depth).Within Cursor.Step ∧ (expression depth).Within Cursor.Step ∧
      (loneExpression bound).Within Cursor.Step ∧ (climb depth level).Within Cursor.Step) ∧
    (∀ (ts : List Token) (c : Cursor), ReflTransGen Cursor.Step (.ofTokens ts) c →
      c.position ≤ (bodyOf ts).length ∧ c.rest = (bodyOf ts).drop c.position) ∧
    (∀ (bound depth : Nat) (c : Cursor), c.rest ≠ [] →
      c.position < ((declaration bound (statement depth)).cursorAfter c).position) ∧
    (∀ (bound : Nat) (q : Parse Expr) (c : Cursor), Agree c.rest.length (expression bound) q →
      expression (bound + 1) c = expressionAround q (bound + 1) c) ∧
    (∀ (bound : Nat) (q : Parse Stmt) (c : Cursor), Agree c.rest.length (statement bound) q →
      statement (bound + 1) c = statementAround q (bound + 1) c) ∧
    (∀ (bound : Nat) (q : Precedence → Parse Expr) (level : Precedence) (c : Cursor),
      (∀ l, Agree c.rest.length (climb bound l) (q l)) →
      climb (bound + 1) level c = climbAround q (bound + 1) level c) ∧
    (∀ (ts : List Token) (bound : Nat), (bodyOf ts).length < bound →
      program bound (.ofTokens ts) = program (ts.length + 1) (.ofTokens ts) ∧
      loneExpression bound (.ofTokens ts) = loneExpression (ts.length + 1) (.ofTokens ts) ∧
      ∃ p c, program bound (.ofTokens ts) = .ok p c ∧ c.rest = []) ∧
    (∀ ts : List Token, (parseProgram ts).errors.length ≤ (bodyOf ts).length) := by
  refine ⟨?_, ?_, ?_, ?_, ?_, ?_, ?_, parseProgram_errors_le⟩
  · intro bound depth level
    exact ⟨program_within bound, declaration_within bound depth, (statement_sound depth).within,
      (expression_sound depth).within, (loneExpression_sound bound).within, (climb_reads depth level).step⟩
  · intro ts c hsteps
    have hinside := (Cursor.inside_ofTokens ts).steps hsteps
    exact ⟨hinside.position_le, hinside.rest_eq⟩
  · intro bound depth c hc
    obtain ⟨o, c', hread, -, -, hlt⟩ := declaration_advances (statement_paysItsWay depth) bound hc
    rwa [cursorAfter_ok hread]
  · intro bound q c hq
    exact expressionAround_agree (n := c.rest.length + 1) hq (expression_paysItsWay bound) rfl c
      (Nat.lt_succ_self _)
  · intro bound q c hq
    exact statementAround_agree (n := c.rest.length + 1) hq (statement_paysItsWay bound) rfl c
      (Nat.lt_succ_self _)
  · intro bound q level c hq
    rw [climb_succ]
    exact climbAround_agree (n := c.rest.length + 1) hq (climb_reads bound) rfl level c
      (Nat.lt_succ_self _)
  · intro ts bound hbound
    have hlength := length_bodyOf_le ts
    -- both bounds are above the number of tokens to read
    have hb : min bound ((bodyOf ts).length + 1) = min (ts.length + 1) ((bodyOf ts).length + 1) := by
      omega
    have hstart : (Cursor.ofTokens ts).rest.length < (bodyOf ts).length + 1 := Nat.lt_succ_self _
    obtain ⟨p, c, hrun, -, -, hrest⟩ := program_reads_all ts hbound
    exact ⟨program_agree hb _ hstart, loneExpression_agree hb _ hstart, p, c, hrun, hrest⟩

open Parse in
/-- A brace that closes nothing and a keyword that is only reserved: neither can be read, each costs
one error, and what stands behind the first end mark is never looked at. -/
theorem parsing_progresses_stray_brace :
    let ts : List Token :=
      [⟨.symbol .rightBrace, "\x7d", 1, none⟩, ⟨.keyword .class_, "class", 1, none⟩,
        ⟨.endOfInput, "", 1, none⟩, ⟨.identifier, "x", 1, none⟩]
    let c : Cursor := .ofTokens ts
    (ReflTransGen Cursor.Step c c.advance ∧ c.advance.position ≤ 2) ∧
    (c.rest ≠ [] ∧ c.position < ((declaration 3 (statement 3)).cursorAfter c).position) ∧
    (Agree 2 (expression 3) (expression 5) ∧ expression 4 c = expressionAround (expression 5) 4 c) ∧
    (Agree 2 (statement 3) (statement 5) ∧ statement 4 c = statementAround (statement 5) 4 c) ∧
    ((∀ l, Agree 2 (climb 3 l) (climb 5 l)) ∧
      climb 4 .assignment c = climbAround (climb 5) 4 .assignment c) ∧
    ((bodyOf ts).length < 3 ∧ program 3 c = program 5 c) ∧
    (parseProgram ts).errors.length = 2 := by
  intro ts c
  obtain ⟨-, hinside, hadvance, hexpression, hstatement, hclimb, hbounds, -⟩ := parsing_progresses
  have hsteps : ReflTransGen Cursor.Step c c.advance := advance_reads.step c
  have hexpressions : Agree 2 (expression 3) (expression 5) := expression_agree rfl
  have hstatements : Agree 2 (statement 3) (statement 5) := statement_agree rfl
  have hclimbs : ∀ l, Agree 2 (climb 3 l) (climb 5 l) := climb_agree rfl
  exact ⟨⟨hsteps, (hinside ts _ hsteps).1⟩, ⟨by decide, hadvance 3 3 c (by decide)⟩,
    ⟨hexpressions, hexpression 3 _ c hexpressions⟩, ⟨hstatements, hstatement 3 _ c hstatements⟩,
    ⟨hclimbs, hclimb 3 _ .assignment c hclimbs⟩,
    ⟨by decide, (hbounds ts 3 (by decide)).1⟩, by decide +kernel⟩

end Scriptlet
