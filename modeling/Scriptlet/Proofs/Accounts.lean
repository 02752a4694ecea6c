import Scriptlet.Proofs.Descent

/-! # Tokens pay for errors

That parsing does not drown its reader in errors is a matter of accounts: every error is paid for by a
token that has been read. A successful expression or statement has read at least one token more than
it has noted errors. A failed one has either not moved at all, or it has a token to spare for the error
it fails with. A declaration that has not moved takes its token when reading resumes at the next
boundary, so every declaration moves on (`declaration_advances`).
-/

namespace Scriptlet

open Relation

namespace Cursor

/-- The cursor stands among the given tokens. -/
structure Inside (tokens : List Token) (c : Cursor) : Prop where
  position_le : c.position ≤ tokens.length
  rest_eq : c.rest = tokens.drop c.position

theorem inside_ofTokens (ts : List Token) : Inside (bodyOf ts) (ofTokens ts) :=
  ⟨Nat.zero_le _, rfl⟩

/-- No step leads out of the tokens. -/
theorem Inside.step {tokens : List Token} {c c' : Cursor} (h : Inside tokens c) (hstep : Step c c') :
    Inside tokens c' := by
  cases hstep with
  | note e => exact ⟨h.position_le, h.rest_eq⟩
  | read hread =>
    cases hread with
    | mk t rest line n es =>
      have hrest : t :: rest = tokens.drop n := h.rest_eq
      refine ⟨?_, ?_⟩
      · have hlength := congrArg List.length hrest
        simp only [List.length_cons, List.length_drop] at hlength
        show n + 1 ≤ tokens.length
        omega
      · have htail := congrArg List.tail hrest
        simpa using htail

/-- No number of steps leads out of the tokens. -/
theorem Inside.steps {tokens : List Token} {c c' : Cursor} (h : Inside tokens c)
    (hsteps : ReflTransGen Step c c') : Inside tokens c' := by
  induction hsteps with
  | refl => exact h
  | tail _ hstep ih => exact ih.step hstep

/-- What is read leaves the tokens in front of the cursor. -/
theorem position_add_length_rest {c c' : Cursor} (h : ReflTransGen Step c c') :
    c'.position + c'.rest.length = c.position + c.rest.length := by
  induction h with
  | refl => rfl
  | tail _ hstep ih =>
    cases hstep with
    | note e => exact ih
    | read hread =>
      cases hread
      simp only [List.length_cons] at ih ⊢
      omega

/-- A cursor never moves back. -/
theorem position_mono {c c' : Cursor} (h : ReflTransGen Step c c') : c.position ≤ c'.position := by
  induction h with
  | refl => exact Nat.le_refl _
  | tail _ hstep ih =>
    cases hstep with
    | note e => exact ih
    -- reading moves on by one token, and noting an error does not move
    | read hread =>
      cases hread
      exact Nat.le_succ_of_le ih

/-- From `c` to `c'` at least `k` tokens more are read than errors are noted. -/
def Spares (k : Nat) (c c' : Cursor) : Prop :=
  c'.errors.size + c.position + k ≤ c.errors.size + c'.position

/-- What is spared adds up. -/
theorem Spares.trans {j k : Nat} {c c₁ c' : Cursor} (h₁ : Spares j c c₁) (h₂ : Spares k c₁ c') :
    Spares (j + k) c c' := by
  unfold Spares at *
  omega

theorem Spares.mono {j k : Nat} {c c' : Cursor} (h : Spares k c c') (hle : j ≤ k) :
    Spares j c c' := by
  unfold Spares at *
  omega

/-- Tokens to spare have been read. -/
theorem Spares.length_rest {k : Nat} {c c' : Cursor} (h : Spares k c c')
    (hsteps : ReflTransGen Step c c') : c'.rest.length + k ≤ c.rest.length := by
  have herrors := (errors_grow hsteps).length_le
  have hlength := position_add_length_rest hsteps
  simp only [Array.length_toList] at herrors
  unfold Spares at h
  omega

end Cursor

namespace Parse

variable {α β : Type}

/-- Called at `c`, the parser moves by steps. When it succeeds it has `k` tokens to spare for errors,
and when it fails it has them too or has not moved at all. -/
structure Spares (k : Nat) (p : Parse α) (c : Cursor) : Prop where
  within : ReflTransGen Cursor.Step c (p.cursorAfter c)
  ok {a : α} {c' : Cursor} (h : p c = .ok a c') : Cursor.Spares k c c'
  error {e : SyntaxError} {c' : Cursor} (h : p c = .error e c') : c' = c ∨ Cursor.Spares k c c'

/-- Called anywhere, the parser reads a token at least, and one more for every error it notes; if it
fails after it has moved, it has read one more for that error too. -/
def PaysItsWay (p : Parse α) : Prop :=
  ∀ c, p.Spares 1 c

section Spares

variable {c : Cursor} {k : Nat}

/-- A parser that succeeds has moved by steps. -/
theorem Spares.steps {p : Parse α} {a : α} {c' : Cursor} (hp : p.Spares k c) (h : p c = .ok a c') :
    ReflTransGen Cursor.Step c c' := by
  have hsteps := hp.within
  rwa [cursorAfter_ok h] at hsteps

/-- A success leaves fewer tokens. -/
theorem Spares.length_rest {p : Parse α} {a : α} {c' : Cursor} (hp : p.Spares k c)
    (h : p c = .ok a c') : c'.rest.length + k ≤ c.rest.length :=
  (hp.ok h).length_rest (hp.steps h)

/-- What is spared may be left unused. -/
theorem Spares.weaken {p : Parse α} (hp : p.Spares k c) : p.Spares 0 c := by
  refine ⟨hp.within, fun h => (hp.ok h).mono (Nat.zero_le k), fun h => ?_⟩
  rcases hp.error h with hstay | hspares
  · exact .inl hstay
  · exact .inr (hspares.mono (Nat.zero_le k))

/-- Only what the parser does at `c` matters. -/
theorem Spares.of_eq {p q : Parse α} (h : p c = q c) (hq : q.Spares k c) : p.Spares k c := by
  refine ⟨?_, ?_, ?_⟩
  · rw [cursorAfter, h]
    exact hq.within
  · rw [h]
    exact hq.ok
  · rw [h]
    exact hq.error

/-- It is enough to know a run that succeeds. -/
theorem Spares.of_ok {p : Parse α} {a : α} {c' : Cursor} (h : p c = .ok a c')
    (hsteps : ReflTransGen Cursor.Step c c') (hspares : Cursor.Spares k c c') : p.Spares k c := by
  refine ⟨?_, ?_, ?_⟩
  · rwa [cursorAfter_ok h]
  · intro b c'' hb
    rw [h] at hb
    cases hb
    exact hspares
  · intro e c'' he
    rw [h] at he
    cases he

/-- A parser that fails where it was called owes nothing. -/
theorem Spares.of_error {p : Parse α} {e : SyntaxError} (h : p c = .error e c) : p.Spares k c := by
  refine ⟨?_, ?_, ?_⟩
  · rw [cursorAfter_error h]
  · intro b c' hb
    rw [h] at hb
    cases hb
  · intro e' c' he
    rw [h] at he
    cases he
    exact .inl rfl

/-- A failure of the first part is one of the whole. -/
theorem Spares.bind_error {p : Parse α} {f : α → Parse β} {e : SyntaxError} {c' : Cursor}
    (hp : p.Spares k c) (h : p c = .error e c') : (p >>= f).Spares k c := by
  have hbind := EStateM.bind_of_error (f := f) h
  refine ⟨?_, ?_, ?_⟩
  · rw [cursorAfter_error hbind, ← cursorAfter_error h]
    exact hp.within
  · intro b c'' hb
    rw [hbind] at hb
    cases hb
  · intro e' c'' he
    rw [hbind] at he
    cases he
    exact hp.error h

/-- What is to spare after the first part stays to spare, wherever the second part fails. -/
theorem Spares.bind {p : Parse α} {f : α → Parse β} (hp : p.Spares k c)
    (hf : ∀ a c', p c = .ok a c' → (f a).Spares 0 c') : (p >>= f).Spares k c := by
  cases hpc : p c with
  | error e c' => exact hp.bind_error hpc
  | ok a c' =>
    have hfirst := hp.ok hpc
    have hnext := hf a c' hpc
    have hbind := EStateM.bind_of_ok (f := f) hpc
    refine ⟨?_, ?_, ?_⟩
    · refine (hp.steps hpc).trans ?_
      rw [cursorAfter, hbind]
      exact hnext.within
    · intro b c'' h
      rw [hbind] at h
      exact hfirst.trans (hnext.ok h)
    · intro e c'' h
      rw [hbind] at h
      -- a second part that fails on the spot lives on what the first part has to spare
      refine .inr ?_
      rcases hnext.error h with rfl | hspares
      · exact hfirst
      · exact hfirst.trans hspares

/-- A token to spare pays for an error that is noted behind it. -/
theorem Spares.bind_record {p : Parse α} {f : α → Parse β} (hp : p.Spares 1 c)
    (hf : ∀ a c', ∃ b, f a c' = .ok b c' ∨ ∃ e, f a c' = .ok b (c'.record e)) :
    (p >>= f).Spares 0 c := by
  cases hpc : p c with
  | error e c' => exact hp.weaken.bind_error hpc
  | ok a c' =>
    have hsteps := hp.steps hpc
    have hfirst := hp.ok hpc
    have hbind := EStateM.bind_of_ok (f := f) hpc
    obtain ⟨b, hb | ⟨e, hb⟩⟩ := hf a c'
    · exact .of_ok (hbind.trans hb) hsteps (hfirst.mono (Nat.zero_le 1))
    · refine .of_ok (hbind.trans hb) (hsteps.tail (.note c' e)) ?_
      simp only [Cursor.Spares, Cursor.record, Array.size_push] at hfirst ⊢
      omega

theorem pure_spares (a : α) (c : Cursor) : (pure a : Parse α).Spares 0 c :=
  .of_ok rfl .refl (Nat.le_refl _)

theorem noExpression_spares (c : Cursor) : (noExpression : Parse α).Spares k c :=
  .of_error rfl

/-- Looking at the next token costs nothing. -/
theorem peek_bind_spares {f : Token → Parse α} (h : (f c.current).Spares k c) :
    (peek >>= f).Spares k c :=
  ⟨h.within, h.ok, h.error⟩

/-- Reading the next token, where there is one. -/
theorem spares_advance (h : c.rest ≠ []) : Cursor.Spares 1 c c.advance := by
  obtain ⟨_ | ⟨t, rest⟩, line, n, es⟩ := c
  · exact absurd rfl h
  · simp only [Cursor.Spares, Cursor.advance]
    omega

/-- Where the next token is not the end mark, there is one to read. -/
theorem rest_ne_nil (h : c.current.kind ≠ .endOfInput) : c.rest ≠ [] := by
  intro hrest
  apply h
  simp [Cursor.current, hrest, Token.atEnd]

/-- Who only reads notes no errors. -/
theorem spares_of_reads {p : Parse α} (h : p.Within Cursor.Read) (c : Cursor) : p.Spares 0 c := by
  have hspares : Cursor.Spares 0 c (p.cursorAfter c) := by
    have herrors := Cursor.errors_of_reads (h c)
    have hposition := Cursor.position_mono (h.step c)
    unfold Cursor.Spares
    rw [herrors]
    omega
  refine ⟨h.step c, fun hok => ?_, fun herror => .inr ?_⟩
  · rwa [cursorAfter_ok hok] at hspares
  · rwa [cursorAfter_error herror] at hspares

/-- A token that is not the end is there to be read. -/
theorem advance_spares (h : c.current.kind ≠ .endOfInput) : advance.Spares 1 c :=
  .of_ok rfl (advance_reads.step c) (spares_advance (rest_ne_nil h))

/-- An expected token is read, or nothing is. -/
theorem expect_spares (kind : TokenKind) (error : String → Nat → SyntaxError) :
    (expect kind error).PaysItsWay := by
  intro c
  by_cases h : c.rest ≠ [] ∧ c.current.kind = kind
  · have hok : expect kind error c = .ok c.current c.advance := by rw [expect, if_pos h]
    exact .of_ok hok (advance_reads.step c) (spares_advance h.1)
  · have herror : expect kind error c = .error (error c.current.describe c.current.line) c := by
      rw [expect, if_neg h]
    exact .of_error herror

/-- The parser reads one token and gives something for it, or it does nothing. -/
def Takes (p : Parse (Option α)) : Prop :=
  ∀ c, p c = .ok none c ∨ ∃ a, c.rest ≠ [] ∧ p c = .ok (some a) c.advance

/-- An optional token is read or left. -/
theorem takeIf_takes (f : TokenKind → Option α) : (takeIf f).Takes := by
  rintro ⟨_ | ⟨t, rest⟩, line, n, es⟩
  · exact .inl rfl
  · cases h : f t.kind with
    | none => exact .inl (by simp [takeIf, h])
    | some a => exact .inr ⟨(a, t.line), by simp, by simp [takeIf, h]⟩

theorem take?_takes (kind : TokenKind) : (take? kind).Takes := by
  rintro ⟨_ | ⟨t, rest⟩, line, n, es⟩
  · exact .inl rfl
  · by_cases h : t.kind = kind
    · exact .inr ⟨t.line, by simp, by simp [take?, h]⟩
    · exact .inl (by simp [take?, h])

/-- What follows an optional token has to make do with one token less only if the token is there. -/
theorem Takes.bind_spares {p : Parse (Option α)} {g : Option α → Parse β} (hp : p.Takes)
    (hk : k ≤ 1) (hnone : (g none).Spares k c) (hsome : ∀ a c', (g (some a)).Spares 0 c') :
    (p >>= g).Spares k c := by
  rcases hp c with h | ⟨a, hrest, h⟩
  · exact .of_eq (EStateM.bind_of_ok h) hnone
  · have hpc : p.Spares k c :=
      .of_ok h (advance_reads.step c) ((spares_advance hrest).mono hk)
    refine hpc.bind fun o c' ho => ?_
    rw [h] at ho
    cases ho
    exact hsome a _

end Spares

/-! ## Expressions -/

section Expressions

variable {nested operand target : Parse Expr}

/-- The smallest expressions read a token, and a group reads its parentheses besides what is in it.
-/
theorem primary_paysItsWay (h : nested.PaysItsWay) : (primary nested).PaysItsWay := by
  intro c
  refine peek_bind_spares ?_
  split
  · next e he =>
    have hatom : c.current.kind ≠ .endOfInput := by
      intro hend
      simp [Expr.ofToken?, hend] at he
    exact (advance_spares hatom).bind fun _ c' _ => pure_spares _ c'
  · split
    · next hopen =>
      refine (advance_spares (by rw [hopen]; decide)).bind fun _ c' _ => ?_
      refine (h c').weaken.bind fun inner c' _ => ?_
      exact (expect_spares _ _ c').weaken.bind fun _ c' _ => pure_spares _ c'
    · exact noExpression_spares c

/-- Operators in front of an operand are read before the operand is. -/
theorem unary_paysItsWay (h : operand.PaysItsWay) (bound : Nat) :
    (unary operand bound).PaysItsWay := by
  induction bound with
  | zero => exact h
  | succ bound ih =>
    intro c
    refine (takeIf_takes _).bind_spares (Nat.le_refl 1) (h c) ?_
    rintro ⟨op, line⟩ c'
    exact (ih c').weaken.bind fun _ c' _ => pure_spares _ c'

/-- The connectives of a level read a token each, before the operand behind them. -/
theorem chain_spares (h : operand.PaysItsWay) (level : Precedence) (bound : Nat) (left : Expr)
    (c : Cursor) : (chain level operand bound left).Spares 0 c := by
  induction bound generalizing left c with
  | zero => exact pure_spares left c
  | succ bound ih =>
    refine (takeIf_takes _).bind_spares (Nat.zero_le 1) (pure_spares left c) ?_
    rintro ⟨op, line⟩ c'
    exact (h c').weaken.bind fun right c' _ => ih _ c'

/-- Every level starts with an operand, which pays its way. -/
theorem levels_paysItsWay (h : operand.PaysItsWay) (bound : Nat) (ls : List Precedence) :
    (levels bound operand ls).PaysItsWay := by
  induction ls with
  | nil => exact h
  | cons level tighter ih =>
    intro c
    exact (ih c).bind fun left c' _ => chain_spares ih level bound left c'

/-- The error for a target that is no variable is paid for by the value that was read. -/
theorem assignment_paysItsWay (hnested : nested.PaysItsWay) (htarget : target.PaysItsWay) :
    (assignment nested target).PaysItsWay := by
  intro c
  refine (htarget c).bind fun e c' _ => ?_
  refine (take?_takes _).bind_spares (Nat.zero_le 1) (pure_spares e c') ?_
  intro line c'
  refine (hnested c').bind_record fun value c' => ?_
  split
  · exact ⟨_, .inl rfl⟩
  · exact ⟨_, .inr ⟨_, rfl⟩⟩

/-- Expressions around `nested` ones, with so many unary operators in front of an operand and so many
connectives on a level. -/
def expressionAround (nested : Parse Expr) (rounds : Nat) : Parse Expr :=
  assignment nested (levels rounds (unary (primary nested) rounds) Precedence.connectiveLevels)

theorem expression_succ (bound : Nat) :
    expression (bound + 1) = expressionAround (expression bound) (bound + 1) :=
  rfl

theorem expressionAround_paysItsWay (h : nested.PaysItsWay) (rounds : Nat) :
    (expressionAround nested rounds).PaysItsWay :=
  assignment_paysItsWay h (levels_paysItsWay (unary_paysItsWay (primary_paysItsWay h) rounds) rounds _)

/-- An expression pays its way, to any depth. -/
theorem expression_paysItsWay (bound : Nat) : (expression bound).PaysItsWay := by
  -- on the depth: without depth left, the parser refuses and has not moved
  induction bound with
  | zero => exact fun c => noExpression_spares c
  | succ bound ih =>
    rw [expression_succ]
    exact expressionAround_paysItsWay ih (bound + 1)

end Expressions

/-! ## Statements -/

section Statements

variable {inner : Parse Stmt}

theorem semicolon_paysItsWay (after : Clause) : (semicolon after).PaysItsWay :=
  fun c => (expect_spares _ _ c).bind fun _ c' _ => pure_spares _ c'

/-- A condition in parentheses pays its way. -/
theorem condition_paysItsWay (bound : Nat) (keyword : Keyword) :
    (condition bound keyword).PaysItsWay := by
  intro c
  refine (expect_spares _ _ c).bind fun _ c' _ => ?_
  refine (expression_paysItsWay bound c').weaken.bind fun e c' _ => ?_
  exact (expect_spares _ _ c').weaken.bind fun _ c' _ => pure_spares _ c'

/-- A declaration has its keyword to spare. -/
theorem varDeclaration_spares {c : Cursor} (bound : Nat) (h : c.current.kind ≠ .endOfInput) :
    (varDeclaration bound).Spares 1 c := by
  refine peek_bind_spares ?_
  refine (advance_spares h).bind fun _ c' _ => ?_
  refine (expect_spares _ _ c').weaken.bind fun name c' _ => ?_
  have hclose : ∀ (initial : Option Expr) (c' : Cursor),
      (semicolon .variableDeclaration >>= fun _ =>
        pure (Stmt.var c.current.line name.lexeme initial)).Spares 0 c' :=
    fun _ c' => (semicolon_paysItsWay _ c').weaken.bind fun _ c' _ => pure_spares _ c'
  refine (take?_takes _).bind_spares (Nat.zero_le 1) (hclose none c') ?_
  intro line c'
  show ((some <$> expression bound) >>= _ : Parse Stmt).Spares 0 c'
  rw [map_eq_pure_bind, bind_assoc]
  exact (expression_paysItsWay bound c').weaken.bind fun e c' _ => hclose (some e) c'

/-- Skipping does not move back. -/
theorem le_skipToBoundary (read : Bool) (position : Nat) (ts : List Token) :
    position ≤ (skipToBoundary read position ts).1 := by
  induction ts generalizing read position with
  | nil => exact Nat.le_refl _
  | cons t rest ih =>
    unfold skipToBoundary
    split
    · exact Nat.le_succ _
    · split
      · exact Nat.le_refl _
      · exact Nat.le_of_succ_le (ih true (position + 1))

/-- Where nothing has been read, the first token is skipped, whatever it is. -/
theorem lt_skipToBoundary (position : Nat) {ts : List Token} (h : ts ≠ []) :
    position < (skipToBoundary false position ts).1 := by
  cases ts with
  | nil => exact absurd rfl h
  | cons t rest =>
    unfold skipToBoundary
    split
    · exact Nat.lt_succ_self _
    · exact le_skipToBoundary true (position + 1) rest

/-- Where reading resumes, after a declaration that began at `start` has failed at `c`. -/
def resumed (start : Nat) (c : Cursor) : Cursor :=
  (resync start).cursorAfter c

theorem resumed_errors (start : Nat) (c : Cursor) : (resumed start c).errors = c.errors :=
  rfl

/-- Reading resumes no earlier than it has failed. -/
theorem le_resumed (start : Nat) (c : Cursor) : c.position ≤ (resumed start c).position :=
  le_skipToBoundary _ _ _

/-- Where there is a token left, reading resumes behind the place where it began. -/
theorem lt_resumed {c : Cursor} (h : c.rest ≠ []) : c.position < (resumed c.position c).position := by
  have hread : decide (c.position < c.position) = false := by simp
  show c.position < (skipToBoundary (decide (c.position < c.position)) c.position c.rest).1
  rw [hread]
  exact lt_skipToBoundary _ h

/-- Called at `c`, the parser succeeds; it has read a token at least, and one for every error. -/
def Advances (p : Parse α) (c : Cursor) : Prop :=
  ∃ a c', p c = .ok a c' ∧ ReflTransGen Cursor.Step c c' ∧ Cursor.Spares 0 c c' ∧
    c.position < c'.position

/-- What a declaration reads, by its first token. -/
def item (bound : Nat) (stmt : Parse Stmt) (first : Token) : Parse Stmt :=
  if first.kind = .keyword .var_ then varDeclaration bound else stmt

/-- A declaration that is read is given as it is. -/
theorem declaration_ok {bound : Nat} {stmt : Parse Stmt} {c c' : Cursor} {s : Stmt}
    (h : item bound stmt c.current c = .ok s c') :
    declaration bound stmt c = .ok (some s) c' := by
  have hattempt : attempt (item bound stmt c.current) c = .ok (.ok s) c' := by rw [attempt, h]
  exact EStateM.bind_of_ok (m := attempt (item bound stmt c.current)) hattempt

/-- A declaration that fails is noted and skipped. -/
theorem declaration_error {bound : Nat} {stmt : Parse Stmt} {c c' : Cursor} {e : SyntaxError}
    (h : item bound stmt c.current c = .error e c') :
    declaration bound stmt c = .ok none (resumed c.position (c'.record e)) := by
  have hattempt : attempt (item bound stmt c.current) c = .ok (.error e) c' := by rw [attempt, h]
  exact EStateM.bind_of_ok (m := attempt (item bound stmt c.current)) hattempt

/-- Every declaration reads a token, also one that cannot be read. -/
theorem declaration_advances {stmt : Parse Stmt} (hstmt : stmt.PaysItsWay) (bound : Nat)
    {c : Cursor} (hc : c.rest ≠ []) : (declaration bound stmt).Advances c := by
  have hitem : (item bound stmt c.current).Spares 1 c := by
    unfold item
    split
    · next hvar => exact varDeclaration_spares bound (by rw [hvar]; decide)
    · exact hstmt c
  cases h : item bound stmt c.current c with
  | ok s c' =>
    have hsteps := hitem.steps h
    refine ⟨some s, c', declaration_ok h, hsteps, (hitem.ok h).mono (Nat.zero_le 1), ?_⟩
    have hlength := hitem.length_rest h
    have hposition := Cursor.position_add_length_rest hsteps
    omega
  | error e c' =>
    have hsteps : ReflTransGen Cursor.Step c (resumed c.position (c'.record e)) := by
      have hfailed := hitem.within
      rw [cursorAfter_error h] at hfailed
      exact (hfailed.tail (.note c' e)).trans (resync_within c.position _)
    have herrors : (resumed c.position (c'.record e)).errors.size = c'.errors.size + 1 := by
      rw [resumed_errors, Cursor.record, Array.size_push]
    refine ⟨none, _, declaration_error h, hsteps, ?_⟩
    -- nothing was read, and the next token pays; or a token is to spare already
    rcases hitem.error h with rfl | hspares
    · have hlt : c'.position < (resumed c'.position (c'.record e)).position :=
        lt_resumed (c := c'.record e) hc
      refine ⟨?_, hlt⟩
      unfold Cursor.Spares
      omega
    · have hle : c'.position ≤ (resumed c.position (c'.record e)).position :=
        le_resumed c.position (c'.record e)
      have hgrow : c.errors.size ≤ c'.errors.size := by
        have hfailed := hitem.within
        rw [cursorAfter_error h] at hfailed
        simpa using (Cursor.errors_grow hfailed).length_le
      unfold Cursor.Spares at *
      omega

/-- Declarations are read one after another until something stops them; rounds for all tokens are
enough. -/
theorem declarations_end {decl : Parse (Option Stmt)} (hdecl : ∀ c, c.rest ≠ [] → decl.Advances c)
    (stops : TokenKind → Bool) (bound : Nat) (found : List Stmt) (c : Cursor) :
    ∃ p c', declarations stops decl bound found c = .ok p c' ∧ ReflTransGen Cursor.Step c c' ∧
      Cursor.Spares 0 c c' ∧
      (c.rest.length < bound → c'.current.kind = .endOfInput ∨ stops c'.current.kind = true) := by
  induction bound generalizing found c with
  | zero => exact ⟨found.reverse, c, rfl, .refl, Nat.le_refl _, fun h => absurd h (Nat.not_lt_zero _)⟩
  | succ bound ih =>
    by_cases hstop : c.current.kind = .endOfInput ∨ stops c.current.kind = true
    · refine ⟨found.reverse, c, ?_, .refl, Nat.le_refl _, fun _ => hstop⟩
      show (if _ then _ else _ : Parse (List Stmt)) c = _
      rw [if_pos hstop]
      rfl
    · have hrest : c.rest ≠ [] := rest_ne_nil fun hend => hstop (.inl hend)
      obtain ⟨o, c₁, hdecl₁, hsteps₁, hspares₁, hlt⟩ := hdecl c hrest
      obtain ⟨p, c', hloop, hsteps, hspares, hend⟩ := ih (o.toList ++ found) c₁
      -- the round has read a token, so the rounds left are enough for the tokens left
      refine ⟨p, c', ?_, hsteps₁.trans hsteps, hspares₁.trans hspares, fun hbound => hend ?_⟩
      · show (if _ then _ else _ : Parse (List Stmt)) c = _
        rw [if_neg hstop]
        exact (EStateM.bind_of_ok hdecl₁).trans hloop
      · have hposition := Cursor.position_add_length_rest hsteps₁
        omega

/-- A sequence of declarations reads a token for every error in it. -/
theorem declarations_spares {decl : Parse (Option Stmt)}
    (hdecl : ∀ c, c.rest ≠ [] → decl.Advances c) (stops : TokenKind → Bool) (bound : Nat)
    (found : List Stmt) (c : Cursor) : (declarations stops decl bound found).Spares 0 c := by
  obtain ⟨p, c', h, hsteps, hspares, -⟩ := declarations_end hdecl stops bound found c
  exact .of_ok h hsteps hspares

/-- Statements around `inner` ones, with so many declarations in a block; `bound` is the depth of the
expressions in them. -/
def statementAround (inner : Parse Stmt) (bound : Nat) : Parse Stmt := do
  let first ← peek
  match first.kind with
  | .keyword .print_ =>
      advance
      let value ← expression bound
      semicolon .value
      return .print first.line value
  | .keyword .if_ =>
      advance
      let condition ← condition bound .if_
      let yes ← inner
      match ← take? (.keyword .else_) with
      | some _ => return .ifThen first.line condition yes (some (← inner))
      | none => return .ifThen first.line condition yes none
  | .keyword .while_ =>
      advance
      let condition ← condition bound .while_
      return .whileDo first.line condition (← inner)
  | .symbol .leftBrace =>
      advance
      let body ← declarations (· == .symbol .rightBrace) (declaration bound inner) bound []
      let _ ← expect (.symbol .rightBrace) .missingBrace
      return .block first.line body
  | _ =>
      let e ← expression bound
      semicolon .expression
      return .expression e.line e

theorem statement_succ (bound : Nat) :
    statement (bound + 1) = statementAround (statement bound) (bound + 1) :=
  rfl

/-- A statement pays its way, if the statements in it do. -/
theorem statementAround_paysItsWay (h : inner.PaysItsWay) (bound : Nat) :
    (statementAround inner bound).PaysItsWay := by
  intro c
  refine peek_bind_spares ?_
  split
  · -- `print`
    next hkind =>
    refine (advance_spares (by rw [hkind]; decide)).bind fun _ c' _ => ?_
    refine (expression_paysItsWay bound c').weaken.bind fun e c' _ => ?_
    exact (semicolon_paysItsWay _ c').weaken.bind fun _ c' _ => pure_spares _ c'
  · -- `if`
    next hkind =>
    refine (advance_spares (by rw [hkind]; decide)).bind fun _ c' _ => ?_
    refine (condition_paysItsWay bound _ c').weaken.bind fun e c' _ => ?_
    refine (h c').weaken.bind fun yes c' _ => ?_
    refine (take?_takes _).bind_spares (Nat.zero_le 1) (pure_spares _ c') fun line c' => ?_
    exact (h c').weaken.bind fun no c' _ => pure_spares _ c'
  · -- `while`
    next hkind =>
    refine (advance_spares (by rw [hkind]; decide)).bind fun _ c' _ => ?_
    refine (condition_paysItsWay bound _ c').weaken.bind fun e c' _ => ?_
    exact (h c').weaken.bind fun body c' _ => pure_spares _ c'
  · -- a block
    next hkind =>
    refine (advance_spares (by rw [hkind]; decide)).bind fun _ c' _ => ?_
    -- the declarations in a block may fail, but each of them has read a token then
    have hdecl : ∀ c : Cursor, c.rest ≠ [] → (declaration bound inner).Advances c :=
      fun c hc => declaration_advances h bound hc
    refine (declarations_spares hdecl _ bound [] c').bind fun body c' _ => ?_
    exact (expect_spares _ _ c').weaken.bind fun _ c' _ => pure_spares _ c'
  · -- an expression statement
    refine (expression_paysItsWay bound c).bind fun e c' _ => ?_
    exact (semicolon_paysItsWay _ c').weaken.bind fun _ c' _ => pure_spares _ c'

/-- A statement pays its way, to any depth. -/
theorem statement_paysItsWay (bound : Nat) : (statement bound).PaysItsWay := by
  induction bound with
  | zero => exact fun c => noExpression_spares c
  | succ bound ih =>
    rw [statement_succ]
    exact statementAround_paysItsWay ih (bound + 1)

end Statements

end Parse

end Scriptlet
