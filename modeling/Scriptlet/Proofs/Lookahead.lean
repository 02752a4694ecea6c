import Scriptlet.Proofs.Accounts

/-! # How far parsers look

A parser on a piece of an input does not know what stands in front of the piece, and it learns what
stands behind it only when it looks past its last token. Three notions say how far that can matter.
A parser is `Local` if it does the same in any surroundings, as long as tokens of the piece are left
where it stops: then it has never looked past them. It is `Settled` if its success does not depend
on the surroundings even where the piece has been used up, and `Delimited` if such a success has
read a token, so that whatever was read before it was read in front of that token.

Expressions are local. Statements are delimited, since they end in a semicolon or a brace of their
own; only an `if` looks at one more token, and that token matters only if it is an `else`. Recovery
is local: it stops at the first boundary, wherever the input ends.
-/

namespace Scriptlet

open Relation

namespace Cursor

/-- Where tokens are left, there were tokens before. -/
theorem rest_ne_nil_of_steps {c c' : Cursor} (h : ReflTransGen Step c c') (hc' : c'.rest ≠ []) :
    c.rest ≠ [] := by
  intro hc
  have hlength := position_add_length_rest h
  have hposition := position_mono h
  have hpos := List.length_pos_iff.mpr hc'
  rw [hc, List.length_nil] at hlength
  omega

/-- The line on which the input ends stays what it is. -/
theorem endLine_eq {c c' : Cursor} (h : ReflTransGen Step c c') : c'.endLine = c.endLine := by
  induction h with
  | refl => rfl
  | tail _ hstep ih =>
    cases hstep with
    | note e => exact ih
    | read hread =>
      cases hread
      exact ih

end Cursor

/-! ## Surroundings -/

/-- What surrounds a piece of an input: how much was read and noted in front of it, the tokens
behind it, which do not begin with an `else`, and the line on which the whole input ends. -/
structure Surroundings where
  read : Nat
  noted : Array SyntaxError
  behind : List Token
  endLine : Nat
  no_else : ∀ t ∈ behind.head?, t.kind ≠ .keyword .else_

namespace Surroundings

variable {α : Type} (S : Surroundings) {c c' : Cursor}

/-- The cursor on a piece as a cursor on the whole input. -/
def place (c : Cursor) : Cursor :=
  { rest := c.rest ++ S.behind
    endLine := S.endLine
    position := S.read + c.position
    errors := S.noted ++ c.errors }

/-- What comes out on a piece as it comes out on the whole input. -/
def placeResult : EStateM.Result SyntaxError Cursor α → EStateM.Result SyntaxError Cursor α
  | .ok a c => .ok a (S.place c)
  | .error e c => .error e (S.place c)

/-- The end of the piece is not in sight: a token of it is left, or it ends where the input ends. -/
def Hidden (c : Cursor) : Prop :=
  c.rest ≠ [] ∨ S.behind = [] ∧ S.endLine = c.endLine

variable {S}

/-- The next token is the same in all surroundings, if the end of the piece is not in sight. -/
theorem place_current (h : S.Hidden c) : (S.place c).current = c.current := by
  rcases h with h | ⟨hbehind, hline⟩
  · obtain ⟨t, rest, hrest⟩ := List.exists_cons_of_ne_nil h
    simp [Cursor.current, place, hrest]
  · simp [Cursor.current, place, hbehind, hline]

/-- Reading a token of the piece reads it in the surroundings. -/
theorem place_advance (h : c.rest ≠ []) : (S.place c).advance = S.place c.advance := by
  obtain ⟨_ | ⟨t, rest⟩, line, n, es⟩ := c
  · exact absurd rfl h
  · rfl

/-- An error is noted behind those that were noted before. -/
theorem place_record (e : SyntaxError) : (S.place c).record e = S.place (c.record e) := by
  simp [place, Cursor.record]

/-- The end of the piece was not in sight before a step if it is not behind it. -/
theorem hidden_step (h : Cursor.Step c c') (hc' : S.Hidden c') : S.Hidden c := by
  cases h with
  | note e => exact hc'
  | read hread =>
    cases hread with
    | mk t rest line n es => exact .inl (List.cons_ne_nil t rest)

/-- What is not in sight at the end of a way was not in sight before. -/
theorem hidden_steps (h : ReflTransGen Cursor.Step c c') (hc' : S.Hidden c') : S.Hidden c := by
  induction h with
  | refl => exact hc'
  | tail _ hstep ih => exact ih (hidden_step hstep hc')

end Surroundings

namespace Parse

open Surroundings

variable {α β : Type}

/-! ## Local, settled and delimited parsers -/

/-- The parser does the same in all surroundings, unless the end of the piece comes in sight. -/
structure Local (p : Parse α) : Prop where
  within : p.Within Cursor.Step
  commutes (S : Surroundings) (c : Cursor) (h : S.Hidden (p.cursorAfter c)) :
    p (S.place c) = S.placeResult (p c)

/-- The parser does the same in all surroundings if it succeeds, and also if it fails unless the end
of the piece comes in sight. -/
structure Settled (p : Parse α) : Prop where
  within : p.Within Cursor.Step
  ok {c c' : Cursor} {a : α} (S : Surroundings) (h : p c = .ok a c') :
    p (S.place c) = .ok a (S.place c')
  error {c c' : Cursor} {e : SyntaxError} (S : Surroundings) (h : p c = .error e c')
    (hhidden : S.Hidden c') : p (S.place c) = .error e (S.place c')

/-- Besides, a success has read a token. -/
structure Delimited (p : Parse α) : Prop extends Settled p where
  reads {c c' : Cursor} {a : α} (h : p c = .ok a c') : c.rest ≠ []

section Closure

variable {p : Parse α} {f : α → Parse β}

/-- Such a parser is a local one. -/
theorem Settled.toLocal (h : p.Settled) : p.Local := by
  refine ⟨h.within, ?_⟩
  intro S c hhidden
  cases hp : p c with
  | ok a c' => exact h.ok S hp
  | error e c' =>
    rw [cursorAfter_error hp] at hhidden
    exact h.error S hp hhidden

theorem Delimited.toLocal (h : p.Delimited) : p.Local :=
  h.toSettled.toLocal

/-- A success on a piece is one in all surroundings. -/
theorem Local.ok (h : p.Local) {c c' : Cursor} {a : α} (S : Surroundings) (hp : p c = .ok a c')
    (hhidden : S.Hidden c') : p (S.place c) = .ok a (S.place c') := by
  have hplace := h.commutes S c (by rwa [cursorAfter_ok hp])
  rwa [hp] at hplace

theorem Local.error (h : p.Local) {c c' : Cursor} {e : SyntaxError} (S : Surroundings)
    (hp : p c = .error e c') (hhidden : S.Hidden c') : p (S.place c) = .error e (S.place c') := by
  have hplace := h.commutes S c (by rwa [cursorAfter_error hp])
  rwa [hp] at hplace

/-- A parser that succeeds has made such steps. -/
theorem Within.steps_ok (h : p.Within Cursor.Step) {c c' : Cursor} {a : α} (hp : p c = .ok a c') :
    ReflTransGen Cursor.Step c c' := by
  have hsteps := h c
  rwa [cursorAfter_ok hp] at hsteps

theorem Within.steps_error (h : p.Within Cursor.Step) {c c' : Cursor} {e : SyntaxError}
    (hp : p c = .error e c') : ReflTransGen Cursor.Step c c' := by
  have hsteps := h c
  rwa [cursorAfter_error hp] at hsteps

/-- What is hidden behind the second part was hidden behind the first one. -/
theorem Local.bind (hp : p.Local) (hf : ∀ a, (f a).Local) : (p >>= f).Local := by
  refine ⟨hp.within.bind fun a => (hf a).within, ?_⟩
  intro S c hhidden
  cases hpc : p c with
  | error e c' =>
    rw [cursorAfter_error (EStateM.bind_of_error hpc)] at hhidden
    rw [EStateM.bind_of_error hpc, EStateM.bind_of_error (hp.error S hpc hhidden)]
    rfl
  | ok a c' =>
    rw [cursorAfter, EStateM.bind_of_ok hpc] at hhidden
    have hfirst := hp.ok S hpc (hidden_steps ((hf a).within c') hhidden)
    rw [EStateM.bind_of_ok hpc, EStateM.bind_of_ok hfirst]
    exact (hf a).commutes S c' hhidden

/-- Such parsers may follow each other. -/
theorem Settled.bind (hp : p.Settled) (hf : ∀ a, (f a).Settled) : (p >>= f).Settled := by
  refine ⟨hp.within.bind fun a => (hf a).within, ?_, ?_⟩
  · intro c c' b S h
    obtain ⟨a, c₁, hfirst, hsecond⟩ := EStateM.bind_eq_ok h
    rw [EStateM.bind_of_ok (hp.ok S hfirst)]
    exact (hf a).ok S hsecond
  · intro c c' e S h hhidden
    rcases EStateM.bind_eq_error h with hfirst | ⟨a, c₁, hfirst, hsecond⟩
    · exact EStateM.bind_of_error (hp.error S hfirst hhidden)
    · rw [EStateM.bind_of_ok (hp.ok S hfirst)]
      exact (hf a).error S hsecond hhidden

/-- A parser that reads a token may be followed by one that does not look further. -/
theorem Delimited.bind (hp : p.Delimited) (hf : ∀ a, (f a).Settled) : (p >>= f).Delimited := by
  refine ⟨hp.toSettled.bind hf, ?_⟩
  intro c c' b h
  obtain ⟨a, c₁, hfirst, -⟩ := EStateM.bind_eq_ok h
  exact hp.reads hfirst

/-- A delimited second part finds a token where it starts, so a local first part has stopped in
front of that token. -/
theorem Local.bind_delimited (hp : p.Local) (hf : ∀ a, (f a).Delimited) : (p >>= f).Delimited := by
  have hlocal : (p >>= f).Local := hp.bind fun a => (hf a).toLocal
  refine ⟨⟨hlocal.within, ?_, fun S h hhidden => hlocal.error S h hhidden⟩, ?_⟩
  · intro c c' b S h
    obtain ⟨a, c₁, hfirst, hsecond⟩ := EStateM.bind_eq_ok h
    rw [EStateM.bind_of_ok (hp.ok S hfirst (.inl ((hf a).reads hsecond)))]
    exact (hf a).ok S hsecond
  · intro c c' b h
    obtain ⟨a, c₁, hfirst, hsecond⟩ := EStateM.bind_eq_ok h
    exact Cursor.rest_ne_nil_of_steps (hp.within.steps_ok hfirst) ((hf a).reads hsecond)

/-- Nothing is looked at. -/
theorem pure_settled (a : α) : (pure a : Parse α).Settled := by
  refine ⟨.pure a, ?_, ?_⟩
  · intro c c' b S h
    cases h
    rfl
  · intro c c' e S h
    cases h

theorem pure_local (a : α) : (pure a : Parse α).Local :=
  (pure_settled a).toLocal

end Closure

/-! ## Primitives -/

/-- One token is looked at, so the end of the piece must not be in sight. -/
theorem peek_local : peek.Local := by
  refine ⟨peek_within, ?_⟩
  intro S c hhidden
  have hcurrent : (S.place c).current = c.current := place_current hhidden
  show EStateM.Result.ok (S.place c).current (S.place c) = .ok c.current (S.place c)
  rw [hcurrent]

/-- Where the end of a piece is hidden behind the next token, the piece has a next token or the
input has none either. -/
theorem advance_local : advance.Local := by
  refine ⟨advance_reads.step, ?_⟩
  intro S c hhidden
  have hplace : (S.place c).advance = S.place c.advance := by
    rcases hidden_steps (advance_reads.step c) hhidden with hrest | ⟨hbehind, -⟩
    · exact place_advance hrest
    · obtain ⟨_ | ⟨t, rest⟩, line, n, es⟩ := c
      · simp [place, Cursor.advance, hbehind]
      · rfl
  show EStateM.Result.ok () (S.place c).advance = .ok () (S.place c.advance)
  rw [hplace]

/-- The token is looked at only to fail with it. -/
theorem noExpression_settled : (noExpression : Parse α).Settled := by
  refine ⟨noExpression_within, ?_, ?_⟩
  · intro c c' a S h
    cases h
  · intro c c' e S h hhidden
    cases h
    show EStateM.Result.error _ _ = _
    rw [place_current hhidden]

theorem record_local (e : SyntaxError) : (record e).Local := by
  refine ⟨record_within e, ?_⟩
  intro S c hhidden
  show EStateM.Result.ok () ((S.place c).record e) = .ok () (S.place (c.record e))
  rw [place_record]

/-- A parser of one token is a local one. -/
theorem takeIf_local (f : TokenKind → Option α) : (takeIf f).Local := by
  refine ⟨(takeIf_reads f).step, ?_⟩
  intro S c hhidden
  have hhere := hidden_steps ((takeIf_reads f).step c) hhidden
  obtain ⟨_ | ⟨t, rest⟩, line, n, es⟩ := c
  · rcases hhere with hrest | ⟨hbehind, -⟩
    · exact absurd rfl hrest
    · simp [takeIf, place, placeResult, hbehind]
  · cases hf : f t.kind with
    | none => simp [takeIf, place, placeResult, hf]
    | some a => simp [takeIf, place, placeResult, hf, Cursor.advance, Nat.add_assoc]

theorem take?_local (kind : TokenKind) : (take? kind).Local := by
  refine ⟨(take?_reads kind).step, ?_⟩
  intro S c hhidden
  have hhere := hidden_steps ((take?_reads kind).step c) hhidden
  obtain ⟨_ | ⟨t, rest⟩, line, n, es⟩ := c
  · rcases hhere with hrest | ⟨hbehind, -⟩
    · exact absurd rfl hrest
    · simp [take?, place, placeResult, hbehind]
  · by_cases hkind : t.kind = kind
    · simp [take?, place, placeResult, hkind, Cursor.advance, Nat.add_assoc]
    · simp [take?, place, placeResult, hkind]

/-- No `else` is found behind the end of a piece. -/
theorem take?_else_settled : (take? (.keyword .else_)).Settled := by
  refine ⟨(take?_reads _).step, ?_, ?_⟩
  · rintro ⟨_ | ⟨t, rest⟩, line, n, es⟩ c' o S h
    -- behind the piece there is no `else`, by what surrounds it
    · cases h
      exact take?_skips S.no_else S.endLine (S.read + n) (S.noted ++ es)
    · by_cases hkind : t.kind = .keyword .else_
      · simp only [take?, hkind, if_true] at h
        cases h
        simp [take?, place, hkind, Cursor.advance, Nat.add_assoc]
      · simp only [take?, hkind, if_false] at h
        cases h
        simp [take?, place, hkind]
  · intro c c' e S h
    rcases take?_takes (.keyword .else_) c with hnone | ⟨a, -, hsome⟩
    · rw [hnone] at h
      cases h
    · rw [hsome] at h
      cases h

/-- Where an expected token is found, it was a token of the piece. -/
theorem expect_delimited (kind : TokenKind) (error : String → Nat → SyntaxError) :
    (expect kind error).Delimited := by
  -- at the end of the input nothing is read
  have hreads : ∀ {c c' : Cursor} {t : Token}, expect kind error c = .ok t c' → c.rest ≠ [] := by
    intro c c' t h hrest
    simp [expect, hrest] at h
  refine ⟨⟨(expect_reads kind error).step, ?_, ?_⟩, hreads⟩
  · intro c c' t S h
    have hrest := hreads h
    have hcurrent : (S.place c).current = c.current := place_current (.inl hrest)
    have hplace : (S.place c).rest ≠ [] := by simp [place, hrest]
    unfold expect at h ⊢
    rw [hcurrent]
    by_cases hkind : c.current.kind = kind
    · rw [if_pos ⟨hrest, hkind⟩] at h
      rw [if_pos ⟨hplace, hkind⟩, place_advance hrest]
      cases h
      rfl
    · rw [if_neg (fun h => hkind h.2)] at h
      cases h
  · intro c c' e S h hhidden
    have hcurrent : S.Hidden c → (S.place c).current = c.current := place_current
    unfold expect at h ⊢
    by_cases hkind : c.rest ≠ [] ∧ c.current.kind = kind
    · rw [if_pos hkind] at h
      cases h
    · rw [if_neg hkind] at h
      cases h
      rw [hcurrent hhidden]
      -- the end of the piece is no token of this kind, and what is behind it is not in sight
      have hplace : ¬ ((S.place c).rest ≠ [] ∧ c.current.kind = kind) := by
        rintro ⟨hrest, hc⟩
        rcases hhidden with hne | ⟨hbehind, -⟩
        · exact hkind ⟨hne, hc⟩
        · refine hkind ⟨?_, hc⟩
          simpa [place, hbehind] using hrest
      rw [if_neg hplace]

/-! ## Expressions -/

section Expressions

variable {nested operand target : Parse Expr}

/-- A property of parsers that is kept by sequence and holds of operators. -/
structure Compositional (P : ∀ α : Type, Parse α → Prop) : Prop where
  of_pure {α : Type} (a : α) : P α (pure a)
  of_bind {α β : Type} {p : Parse α} {f : α → Parse β} (hp : P α p) (hf : ∀ a, P β (f a)) :
    P β (p >>= f)
  of_unaryOp : P _ (takeIf UnaryOp.ofToken?)
  of_connective (level : Precedence) : P _ (takeIf (Connective.ofLevel? level))

section Compositional

variable {P : ∀ α : Type, Parse α → Prop} (hP : Compositional P)

include hP

/-- A property that pervades operands pervades the prefix operators before them. -/
theorem unary_pervaded (h : P _ operand) (bound : Nat) : P _ (unary operand bound) := by
  induction bound with
  | zero => exact h
  | succ bound ih =>
    refine hP.of_bind hP.of_unaryOp fun o => ?_
    split
    · exact hP.of_bind ih fun e => hP.of_pure _
    · exact h

theorem chain_pervaded (h : P _ operand) (level : Precedence) (bound : Nat) (left : Expr) :
    P _ (chain level operand bound left) := by
  induction bound generalizing left with
  | zero => exact hP.of_pure left
  | succ bound ih =>
    refine hP.of_bind (hP.of_connective level) fun o => ?_
    split
    · exact hP.of_bind h fun right => ih _
    · exact hP.of_pure left

theorem levels_pervaded (h : P _ operand) (bound : Nat) (ls : List Precedence) :
    P _ (levels bound operand ls) := by
  induction ls with
  | nil => exact h
  | cons level tighter ih =>
    exact hP.of_bind ih fun left => chain_pervaded hP ih level bound left

end Compositional

/-- Besides, it holds of whatever else expressions are made of. A primary expression looks ahead before
it reads, so it is taken as a whole. -/
structure Pervasive (P : ∀ α : Type, Parse α → Prop) : Prop extends Compositional P where
  of_equal : P _ (take? (.symbol .equal))
  of_record (e : SyntaxError) : P _ (record e)
  of_noExpression : P Expr noExpression
  of_primary {nested : Parse Expr} (h : P _ nested) : P _ (primary nested)

section Pervasive

variable {P : ∀ α : Type, Parse α → Prop} (hP : Pervasive P)

include hP

theorem assignment_pervaded (hnested : P _ nested) (htarget : P _ target) :
    P _ (assignment nested target) := by
  refine hP.of_bind htarget fun e => hP.of_bind hP.of_equal fun o => ?_
  split
  · exact hP.of_pure e
  · refine hP.of_bind hnested fun value => ?_
    split
    · exact hP.of_pure _
    · exact hP.of_bind (hP.of_record _) fun _ => hP.of_pure _

/-- So it pervades expressions, of which all of these are made. -/
theorem expression_pervaded (bound : Nat) : P _ (expression bound) := by
  induction bound with
  | zero => exact hP.of_noExpression
  | succ bound ih =>
    have hoperand := unary_pervaded hP.toCompositional (hP.of_primary ih) (bound + 1)
    exact assignment_pervaded hP ih (levels_pervaded hP.toCompositional hoperand (bound + 1) _)

end Pervasive

/-- A primary expression looks at one token and reads it. -/
theorem primary_local (h : nested.Local) : (primary nested).Local := by
  refine peek_local.bind fun t => ?_
  split
  · exact advance_local.bind fun _ => pure_local _
  · split
    · refine advance_local.bind fun _ => h.bind fun inner => ?_
      exact (expect_delimited _ _).toLocal.bind fun _ => pure_local _
    · exact noExpression_settled.toLocal

theorem pervasive_local : Pervasive fun _ p => p.Local where
  of_pure := pure_local
  of_bind := Local.bind
  of_unaryOp := takeIf_local _
  of_connective _ := takeIf_local _
  of_equal := take?_local _
  of_record := record_local
  of_noExpression := noExpression_settled.toLocal
  of_primary := primary_local

/-- What an expression is does not depend on what comes behind the token that it stops at. -/
theorem expression_local (bound : Nat) : (expression bound).Local :=
  expression_pervaded pervasive_local bound

end Expressions

/-! ## Statements -/

section Statements

variable {inner stmt : Parse Stmt}

/-- A semicolon ends what it is expected behind. -/
theorem semicolon_delimited (after : Clause) : (semicolon after).Delimited :=
  (expect_delimited _ _).bind fun _ => pure_settled ()

theorem condition_local (bound : Nat) (keyword : Keyword) : (condition bound keyword).Local := by
  refine (expect_delimited _ _).toLocal.bind fun _ => (expression_local bound).bind fun e => ?_
  exact (expect_delimited _ _).toLocal.bind fun _ => pure_local e

/-- A declaration ends with its semicolon. -/
theorem varDeclaration_delimited (bound : Nat) : (varDeclaration bound).Delimited := by
  refine peek_local.bind_delimited fun keyword => advance_local.bind_delimited fun _ => ?_
  refine (expect_delimited _ _).toLocal.bind_delimited fun name => ?_
  refine (take?_local _).bind_delimited fun o => ?_
  have hclose : ∀ initial, (semicolon .variableDeclaration >>= fun _ =>
      pure (Stmt.var keyword.line name.lexeme initial)).Delimited :=
    fun _ => (semicolon_delimited _).bind fun _ => pure_settled _
  split
  · rw [map_eq_pure_bind, bind_assoc]
    exact (expression_local bound).bind_delimited fun e => hclose (some e)
  · exact hclose none

/-- Recovery that stops in front of a token stops there in all surroundings. -/
theorem skipToBoundary_append (read : Bool) (n position : Nat) (ts behind : List Token)
    (h : (skipToBoundary read position ts).2 ≠ [] ∨ behind = []) :
    skipToBoundary read (n + position) (ts ++ behind)
      = (n + (skipToBoundary read position ts).1,
          (skipToBoundary read position ts).2 ++ behind) := by
  -- on the tokens that are skipped: the boundary is found before the end of the piece
  induction ts generalizing read position with
  | nil =>
    rcases h with hrest | rfl
    · exact absurd rfl hrest
    · rfl
  | cons t rest ih =>
    rw [List.cons_append]
    unfold skipToBoundary at h ⊢
    split
    · rfl
    · next hkind =>
      rw [if_neg hkind] at h
      split
      · rfl
      · next hboundary =>
        rw [if_neg hboundary] at h
        exact ih true (position + 1) h

/-- Recovery goes to the same place, unless it looks past the end of the piece. -/
theorem resumed_place {S : Surroundings} {start : Nat} {c : Cursor}
    (h : S.Hidden (resumed start c)) :
    resumed (S.read + start) (S.place c) = S.place (resumed start c) := by
  have hread : decide (S.read + start < (S.place c).position) = decide (start < c.position) := by
    simp [place]
  have hskip : skipToBoundary (decide (start < c.position)) (S.read + c.position)
      (c.rest ++ S.behind)
      = (S.read + (resumed start c).position, (resumed start c).rest ++ S.behind) := by
    rcases h with hrest | ⟨hbehind, -⟩
    · exact skipToBoundary_append _ _ _ _ _ (.inl hrest)
    · exact skipToBoundary_append _ _ _ _ _ (.inr hbehind)
  show Cursor.mk (skipToBoundary _ (S.read + c.position) (c.rest ++ S.behind)).2 S.endLine
    (skipToBoundary _ (S.read + c.position) (c.rest ++ S.behind)).1 (S.noted ++ c.errors) = _
  rw [hread, hskip]
  rfl

/-- What stands where a declaration may stand has read a token when it succeeds. -/
theorem item_delimited (h : stmt.Delimited) (bound : Nat) (first : Token) :
    (item bound stmt first).Delimited := by
  unfold item
  split
  · exact varDeclaration_delimited bound
  · exact h

/-- A declaration that is read is read in all surroundings. -/
theorem declaration_place_ok (h : stmt.Delimited) {bound : Nat} {c c' : Cursor} {s : Stmt}
    (S : Surroundings) (hitem : item bound stmt c.current c = .ok s c') :
    declaration bound stmt (S.place c) = .ok (some s) (S.place c') := by
  have hdelimited := item_delimited h bound c.current
  refine declaration_ok ?_
  rw [place_current (.inl (hdelimited.reads hitem))]
  exact hdelimited.ok S hitem

/-- A declaration that cannot be read fails the same way, and is given up up to the same place. -/
theorem declaration_place_error (h : stmt.Delimited) {bound : Nat} {c c' : Cursor} {e : SyntaxError}
    {S : Surroundings} (hitem : item bound stmt c.current c = .error e c') (hhidden : S.Hidden c') :
    declaration bound stmt (S.place c)
      = .ok none (resumed (S.read + c.position) (S.place (c'.record e))) := by
  have hdelimited := item_delimited h bound c.current
  rw [← place_record]
  refine declaration_error ?_
  rw [place_current (hidden_steps (hdelimited.within.steps_error hitem) hhidden)]
  exact hdelimited.error S hitem hhidden

/-- A declaration, or the way on behind an error in it, does the same in all surroundings. -/
theorem declaration_local (h : stmt.Delimited) (bound : Nat) : (declaration bound stmt).Local := by
  have hwithin : ∀ c : Cursor, (item bound stmt c.current).Within Cursor.Step :=
    fun c => (item_delimited h bound c.current).within
  refine ⟨?_, ?_⟩
  · intro c
    -- an item that fails is noted, and the way on may lead past the end of the piece
    cases hitem : item bound stmt c.current c with
    | ok s c' =>
      rw [cursorAfter_ok (declaration_ok hitem)]
      exact (hwithin c).steps_ok hitem
    | error e c' =>
      rw [cursorAfter_ok (declaration_error hitem)]
      have hfailed := (hwithin c).steps_error hitem
      exact (hfailed.tail (.note c' e)).trans (resync_within c.position _)
  · intro S c hhidden
    cases hitem : item bound stmt c.current c with
    | ok s c' =>
      rw [declaration_ok hitem]
      exact declaration_place_ok h S hitem
    | error e c' =>
      rw [cursorAfter_ok (declaration_error hitem)] at hhidden
      have hfailed : S.Hidden c' :=
        hidden_step (.note c' e) (hidden_steps (resync_within c.position _) hhidden)
      rw [declaration_error hitem, declaration_place_error h hitem hfailed, resumed_place hhidden]
      rfl

theorem declarations_local {decl : Parse (Option Stmt)} (h : decl.Local)
    (stops : TokenKind → Bool) (bound : Nat) (found : List Stmt) :
    (declarations stops decl bound found).Local := by
  induction bound generalizing found with
  | zero => exact pure_local _
  | succ bound ih =>
    refine peek_local.bind fun next => ?_
    split
    · exact pure_local _
    · exact h.bind fun o => ih _

/-- A statement ends with its semicolon or its brace; an `if` looks behind it for an `else`. -/
theorem statementAround_delimited (h : inner.Delimited) (bound : Nat) :
    (statementAround inner bound).Delimited := by
  refine peek_local.bind_delimited fun first => ?_
  split
  · -- `print`
    refine advance_local.bind_delimited fun _ => (expression_local bound).bind_delimited fun e => ?_
    exact (semicolon_delimited _).bind fun _ => pure_settled _
  · -- `if`: the token behind the first branch is looked at, but only for an `else`
    refine advance_local.bind_delimited fun _ => ?_
    refine (condition_local bound _).bind_delimited fun e => ?_
    refine h.bind fun yes => take?_else_settled.bind fun o => ?_
    split
    · exact h.toSettled.bind fun no => pure_settled _
    · exact pure_settled _
  · -- `while`
    refine advance_local.bind_delimited fun _ => ?_
    refine (condition_local bound _).bind_delimited fun e => ?_
    exact h.bind fun body => pure_settled _
  · -- a block
    refine advance_local.bind_delimited fun _ => ?_
    refine (declarations_local (declaration_local h bound) _ bound []).bind_delimited fun body => ?_
    exact (expect_delimited _ _).bind fun _ => pure_settled _
  · -- an expression statement
    refine (expression_local bound).bind_delimited fun e => ?_
    exact (semicolon_delimited _).bind fun _ => pure_settled _

/-- Statements of any nesting do so. -/
theorem statement_delimited (bound : Nat) : (statement bound).Delimited := by
  induction bound with
  | zero =>
    refine ⟨noExpression_settled, ?_⟩
    intro c c' s h
    cases h
  | succ bound ih =>
    rw [statement_succ]
    exact statementAround_delimited ih (bound + 1)

end Statements

end Parse

end Scriptlet
