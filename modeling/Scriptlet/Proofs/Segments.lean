import Scriptlet.Proofs.Lookahead
import Scriptlet.Proofs.Progress

/-! # One statement up to its semicolon

In front of a semicolon and without a block before it, reading one declaration is a closed affair,
however broken the declaration is. An expression passes over no semicolon. So a statement either
reads the semicolon as its last token, or it fails in front of it; in that case recovery stops
behind the semicolon, since there is no boundary before it (`declaration_segment`).
-/

namespace Scriptlet

open Relation

/-! ## Passing over no semicolon -/

namespace Cursor

/-- The cursor passes over one token that is no semicolon, or an error is noted. -/
inductive Inner : Cursor → Cursor → Prop where
  | read (t : Token) (rest : List Token) (line n : Nat) (es : Array SyntaxError)
      (h : t.kind ≠ .symbol .semicolon) : Inner ⟨t :: rest, line, n, es⟩ ⟨rest, line, n + 1, es⟩
  | note (c : Cursor) (e : SyntaxError) : Inner c (c.record e)

/-- The tokens left end in a semicolon, and no other semicolon and no block stands among them. -/
def InSegment (c : Cursor) : Prop :=
  ∃ w t, c.rest = w ++ [t] ∧ t.kind = .symbol .semicolon ∧
    ∀ u ∈ w, u.kind ≠ .symbol .semicolon ∧ u.kind ≠ .symbol .leftBrace ∧ u.kind ≠ .endOfInput

variable {c c' : Cursor}

/-- A step that does not read the semicolon stays in the segment. -/
theorem InSegment.inner (h : c.InSegment) (hstep : Inner c c') : c'.InSegment := by
  cases hstep with
  | note e => exact h
  | read t rest line n es ht =>
    obtain ⟨w, u, hrest, hu, hw⟩ := h
    cases w with
    | nil =>
      cases hrest
      exact absurd hu ht
    | cons v w =>
      cases hrest
      exact ⟨w, u, rfl, hu, fun x hx => hw x (List.mem_cons_of_mem _ hx)⟩

/-- Who passes over no semicolon stays in front of the last one. -/
theorem InSegment.inners (h : c.InSegment) (hsteps : ReflTransGen Inner c c') : c'.InSegment := by
  induction hsteps with
  | refl => exact h
  | tail _ hstep ih => exact ih.inner hstep

/-- The semicolon is still ahead. -/
theorem InSegment.rest_ne_nil (h : c.InSegment) : c.rest ≠ [] := by
  obtain ⟨w, t, hrest, -, -⟩ := h
  rw [hrest]
  exact List.append_ne_nil_of_right_ne_nil w (List.cons_ne_nil t [])

/-- The next token begins no block and is not the end. -/
theorem InSegment.current_ne (h : c.InSegment) :
    c.current.kind ≠ .symbol .leftBrace ∧ c.current.kind ≠ .endOfInput := by
  obtain ⟨w, t, hrest, ht, hw⟩ := h
  cases w with
  | nil =>
    rw [Cursor.current, hrest, List.nil_append, List.head?_cons, Option.getD_some, ht]
    decide
  | cons u w =>
    rw [Cursor.current, hrest, List.cons_append, List.head?_cons, Option.getD_some]
    exact (hw u List.mem_cons_self).2

end Cursor

namespace Parse

variable {α β : Type} {c : Cursor}

/-- Looking at the next token moves nothing. -/
theorem peek_reaches {r : Cursor → Cursor → Prop} {f : Token → Parse α}
    (h : ReflTransGen r c ((f c.current).cursorAfter c)) :
    ReflTransGen r c ((peek >>= f).cursorAfter c) :=
  h

/-- Advancing over another token does not read the semicolon. -/
theorem advance_inner (h : c.current.kind ≠ .symbol .semicolon) :
    ReflTransGen Cursor.Inner c (advance.cursorAfter c) := by
  obtain ⟨_ | ⟨t, rest⟩, line, n, es⟩ := c
  · exact .refl
  · exact .single (.read t rest line n es h)

theorem advance_keyword_inner {keyword : Keyword} (h : c.current.kind = .keyword keyword) :
    ReflTransGen Cursor.Inner c (advance.cursorAfter c) := by
  refine advance_inner ?_
  rw [h]
  intro hkind
  cases hkind

theorem takeIf_inner {f : TokenKind → Option α} (h : f (.symbol .semicolon) = none) :
    (takeIf f).Within Cursor.Inner := by
  rintro ⟨_ | ⟨t, rest⟩, line, n, es⟩
  · exact .refl
  · cases hf : f t.kind with
    | none => simpa [cursorAfter, takeIf, hf] using .refl
    | some a =>
      have hkind : t.kind ≠ .symbol .semicolon := by
        intro hkind
        rw [hkind, h] at hf
        cases hf
      simpa [cursorAfter, takeIf, hf] using .single (.read t rest line n es hkind)

theorem take?_inner {kind : TokenKind} (h : kind ≠ .symbol .semicolon) :
    (take? kind).Within Cursor.Inner := by
  rintro ⟨_ | ⟨t, rest⟩, line, n, es⟩
  · exact .refl
  · by_cases hkind : t.kind = kind
    · have hread := Cursor.Inner.read t rest line n es (hkind ▸ h)
      simpa [cursorAfter, take?, hkind] using .single hread
    · simpa [cursorAfter, take?, hkind] using .refl

theorem expect_inner {kind : TokenKind} (h : kind ≠ .symbol .semicolon)
    (error : String → Nat → SyntaxError) : (expect kind error).Within Cursor.Inner := by
  rintro ⟨_ | ⟨t, rest⟩, line, n, es⟩
  · exact .refl
  · by_cases hkind : t.kind = kind
    · have hread := Cursor.Inner.read t rest line n es (hkind ▸ h)
      simpa [cursorAfter, expect, Cursor.current, hkind] using .single hread
    · simpa [cursorAfter, expect, Cursor.current, hkind] using .refl

section Expressions

/-- A primary expression has no semicolon in it, as it looks for none. -/
theorem primary_inner {nested : Parse Expr} (h : nested.Within Cursor.Inner) : (primary nested).Within Cursor.Inner := by
  intro c
  refine peek_reaches ?_
  split
  · next e he =>
    have hatom : c.current.kind ≠ .symbol .semicolon := by
      intro hkind
      simp [Expr.ofToken?, hkind] at he
    exact reaches_bind (advance_inner hatom) fun _ => .pure e
  · split
    · next hopen =>
      refine reaches_bind (advance_inner (by rw [hopen]; decide)) fun _ => h.bind fun inner => ?_
      exact (expect_inner (by decide) _).bind fun _ => .pure _
    · exact noExpression_within c

theorem pervasive_inner : Pervasive fun _ p => p.Within Cursor.Inner where
  of_pure := .pure
  of_bind := .bind
  of_unaryOp := takeIf_inner rfl
  of_connective _ := takeIf_inner rfl
  of_equal := take?_inner (by decide)
  of_record e c := .single (.note c e)
  of_noExpression := noExpression_within
  of_primary := primary_inner

/-- An expression contains no semicolon. -/
theorem expression_inner (bound : Nat) : (expression bound).Within Cursor.Inner :=
  expression_pervaded pervasive_inner bound

end Expressions

/-- Called at `c` in a segment, the parser reads the segment to its end if it succeeds, and stays in
front of the semicolon if it fails. -/
structure ClosesAt (p : Parse α) (c : Cursor) : Prop where
  ok {a : α} {c' : Cursor} (h : p c = .ok a c') : c'.rest = []
  error {e : SyntaxError} {c' : Cursor} (h : p c = .error e c') : c'.InSegment

/-- Wherever it is called in a segment, the parser reads it to its end or fails in front of the
semicolon. -/
def Closes (p : Parse α) : Prop :=
  ∀ c, c.InSegment → p.ClosesAt c

section Statements

variable {p : Parse α} {f : α → Parse β} {inner : Parse Stmt}

/-- A parser that does not read the semicolon leaves it to the next one. -/
theorem ClosesAt.of_inner (hc : c.InSegment) (hp : ReflTransGen Cursor.Inner c (p.cursorAfter c))
    (hf : ∀ a, (f a).Closes) : (p >>= f).ClosesAt c := by
  have hok : ∀ {a : α} {c₁ : Cursor}, p c = .ok a c₁ → (f a).ClosesAt c₁ := by
    intro a c₁ hfirst
    rw [cursorAfter_ok hfirst] at hp
    exact hf a c₁ (hc.inners hp)
  constructor
  · intro b c' h
    obtain ⟨a, c₁, hfirst, hsecond⟩ := EStateM.bind_eq_ok h
    exact (hok hfirst).ok hsecond
  · intro e c' h
    rcases EStateM.bind_eq_error h with hfirst | ⟨a, c₁, hfirst, hsecond⟩
    · rw [cursorAfter_error hfirst] at hp
      exact hc.inners hp
    · exact (hok hfirst).error hsecond

theorem ClosesAt.of_peek {f : Token → Parse α} (h : (f c.current).ClosesAt c) :
    (peek >>= f).ClosesAt c :=
  ⟨h.ok, h.error⟩

/-- It may do so at every cursor. -/
theorem Within.bind_closes (hp : p.Within Cursor.Inner) (hf : ∀ a, (f a).Closes) :
    (p >>= f).Closes :=
  fun c hc => .of_inner hc (hp c) hf

/-- What comes behind the segment has nothing to read and does not fail. -/
theorem Closes.bind_done (hp : p.Closes)
    (hf : ∀ a c', c'.rest = [] → ∃ b, f a c' = .ok b c') : (p >>= f).Closes := by
  intro c hc
  constructor
  · intro b c' h
    obtain ⟨a, c₁, hfirst, hsecond⟩ := EStateM.bind_eq_ok h
    have hdone := (hp c hc).ok hfirst
    obtain ⟨b', hb⟩ := hf a c₁ hdone
    cases hb.symm.trans hsecond
    exact hdone
  · intro e c' h
    rcases EStateM.bind_eq_error h with hfirst | ⟨a, c₁, hfirst, hsecond⟩
    · exact (hp c hc).error hfirst
    · obtain ⟨b, hb⟩ := hf a c₁ ((hp c hc).ok hfirst)
      cases hb.symm.trans hsecond

theorem Closes.bind_pure (hp : p.Closes) (g : α → β) : (p >>= fun a => pure (g a)).Closes :=
  hp.bind_done fun a _ _ => ⟨g a, rfl⟩

/-- A semicolon is found where it is the next token, and missed in front of any other one. -/
theorem semicolon_closes (after : Clause) : (semicolon after).Closes := by
  refine Closes.bind_pure ?_ fun _ => ()
  rintro ⟨rest, line, n, es⟩ ⟨w, t, hrest, ht, hw⟩
  subst hrest
  cases w with
  | nil =>
    have hfound : expect (.symbol .semicolon) (.missingSemicolon after) ⟨[t], line, n, es⟩
        = .ok t ⟨[], line, n + 1, es⟩ := by
      simp [expect, Cursor.current, ht, Cursor.advance]
    constructor
    · intro u c' h
      cases hfound.symm.trans h
      rfl
    · intro e c' h
      cases hfound.symm.trans h
  | cons u w =>
    have hu : u.kind ≠ .symbol .semicolon := (hw u List.mem_cons_self).1
    -- another token is in the way, and the segment goes on with it
    have hmissed : expect (.symbol .semicolon) (.missingSemicolon after)
        ⟨u :: w ++ [t], line, n, es⟩
        = .error (.missingSemicolon after u.describe u.line) ⟨u :: w ++ [t], line, n, es⟩ := by
      simp [expect, Cursor.current, hu]
    constructor
    · intro v c' h
      cases hmissed.symm.trans h
    · intro e c' h
      cases hmissed.symm.trans h
      exact ⟨u :: w, t, rfl, ht, hw⟩

/-- A condition has no semicolon in it. -/
theorem condition_inner (bound : Nat) (keyword : Keyword) :
    (condition bound keyword).Within Cursor.Inner := by
  refine (expect_inner (by decide) _).bind fun _ => (expression_inner bound).bind fun e => ?_
  exact (expect_inner (by decide) _).bind fun _ => .pure e

/-- A declaration ends with the semicolon of its segment, or fails in front of it. -/
theorem varDeclaration_closes {bound : Nat} (hc : c.InSegment)
    (hkind : c.current.kind = .keyword .var_) : (varDeclaration bound).ClosesAt c := by
  have hclose : ∀ (name : Token) (initial : Option Expr),
      (semicolon .variableDeclaration >>= fun _ =>
        pure (Stmt.var c.current.line name.lexeme initial)).Closes :=
    fun name initial => (semicolon_closes _).bind_pure _
  refine ClosesAt.of_peek ?_
  refine .of_inner hc (advance_keyword_inner hkind) fun _ => ?_
  refine (expect_inner (by decide) _).bind_closes fun name => ?_
  refine (take?_inner (by decide)).bind_closes fun o => ?_
  split
  · rw [map_eq_pure_bind, bind_assoc]
    exact (expression_inner bound).bind_closes fun e => hclose name (some e)
  · exact hclose name none

theorem statementAround_closes (h : inner.Closes) (bound : Nat) :
    (statementAround inner bound).Closes := by
  intro c hc
  refine ClosesAt.of_peek ?_
  split
  · -- `print`
    next hkind =>
    refine .of_inner hc (advance_keyword_inner hkind) fun _ => ?_
    exact (expression_inner bound).bind_closes fun e => (semicolon_closes _).bind_pure _
  · -- `if`: where the branch has read the semicolon, no `else` is left to be found
    next hkind =>
    refine .of_inner hc (advance_keyword_inner hkind) fun _ => ?_
    refine (condition_inner bound _).bind_closes fun e => h.bind_done fun yes c' hdone => ?_
    have hnone : take? (.keyword .else_) c' = .ok none c' := by simp [take?, hdone]
    exact ⟨_, EStateM.bind_of_ok hnone⟩
  · -- `while`
    next hkind =>
    refine .of_inner hc (advance_keyword_inner hkind) fun _ => ?_
    exact (condition_inner bound _).bind_closes fun e => h.bind_pure _
  · -- a block does not start in a segment
    next hkind => exact absurd hkind hc.current_ne.1
  · -- an expression statement
    refine .of_inner hc (expression_inner bound c) fun e => ?_
    exact (semicolon_closes _).bind_pure _

theorem statement_closes (bound : Nat) : (statement bound).Closes := by
  induction bound with
  | zero =>
    intro c hc
    constructor
    · intro s c' h
      cases h
    · intro e c' h
      cases h
      exact hc
  | succ bound ih =>
    rw [statement_succ]
    exact statementAround_closes ih (bound + 1)

theorem item_closes (bound depth : Nat) (hc : c.InSegment) :
    (item bound (statement depth) c.current).ClosesAt c := by
  unfold item
  split
  · next hkind => exact varDeclaration_closes hc hkind
  · exact statement_closes depth c hc

end Statements

end Parse

/-! ## Recovery in a segment -/

/-- The tokens of one statement, or of what was meant to be one, in front of its semicolon: nothing
among them is a boundary, except that the first one may start a statement. -/
structure Segment (seg : List Token) : Prop where
  plain : ∀ t ∈ seg, t.kind ≠ .symbol .semicolon ∧ t.kind ≠ .symbol .leftBrace ∧
    t.kind ≠ .symbol .rightBrace ∧ t.kind ≠ .endOfInput
  starts : ∀ t ∈ seg.tail, t.kind.startsStatement = false

namespace Parse

variable {seg w : List Token} {t : Token}

/-- The tokens of a segment behind the first are no boundaries. -/
theorem isBoundary_eq_false {kind : TokenKind} (hstarts : kind.startsStatement = false)
    (hleft : kind ≠ .symbol .leftBrace) (hright : kind ≠ .symbol .rightBrace) :
    isBoundary kind = false := by
  simp [isBoundary, hstarts, hleft, hright]

/-- Without a boundary on the way, recovery stops behind the semicolon. -/
theorem skipToBoundary_semicolon (position : Nat) (behind : List Token)
    (ht : t.kind = .symbol .semicolon) (hsemicolon : ∀ u ∈ w, u.kind ≠ .symbol .semicolon)
    (hboundary : ∀ u ∈ w, isBoundary u.kind = false) :
    skipToBoundary true position (w ++ t :: behind) = (position + w.length + 1, behind) := by
  induction w generalizing position with
  | nil => simp [skipToBoundary, ht]
  | cons u w ih =>
    rw [List.forall_mem_cons] at hsemicolon hboundary
    rw [List.cons_append, skipToBoundary, if_neg hsemicolon.1, hboundary.1, Bool.and_false,
      if_neg Bool.false_ne_true, ih (position + 1) hsemicolon.2 hboundary.2, List.length_cons]
    congr 1
    omega

/-- Wherever reading has stopped in a segment, recovery stops behind it. If nothing has been read,
the first token is skipped even if it starts a statement. -/
theorem skipToBoundary_segment (hseg : Segment seg) (ht : t.kind = .symbol .semicolon) {k : Nat}
    (hk : k ≤ seg.length) (n : Nat) (behind : List Token) :
    skipToBoundary (decide (n < n + k)) (n + k) ((seg ++ [t]).drop k ++ behind)
      = (n + seg.length + 1, behind) := by
  have hplain : ∀ u ∈ seg.tail, u.kind ≠ .symbol .semicolon ∧ isBoundary u.kind = false := by
    intro u hu
    obtain ⟨hsemicolon, hleft, hright, -⟩ := hseg.plain u (List.mem_of_mem_tail hu)
    exact ⟨hsemicolon, isBoundary_eq_false (hseg.starts u hu) hleft hright⟩
  -- a boundary is only looked for behind the first token that is skipped
  cases k with
  | zero =>
    cases seg with
    | nil => simp [skipToBoundary, ht]
    | cons u w =>
      have hu : u.kind ≠ .symbol .semicolon := (hseg.plain u List.mem_cons_self).1
      have hskip := skipToBoundary_semicolon (n + 1) behind ht (fun v hv => (hplain v hv).1)
        fun v hv => (hplain v hv).2
      rw [List.tail_cons] at hskip
      simp only [Nat.add_zero, Nat.lt_irrefl, decide_false, List.drop_zero, List.cons_append,
        List.append_assoc, List.nil_append, skipToBoundary, if_neg hu, Bool.false_and,
        if_neg Bool.false_ne_true, hskip, List.length_cons]
      congr 1
      omega
  | succ k =>
    have hmem : ∀ u ∈ seg.drop (k + 1), u ∈ seg.tail := by
      intro u hu
      rw [← List.drop_tail] at hu
      exact List.mem_of_mem_drop hu
    have hskip := skipToBoundary_semicolon (n + (k + 1)) behind ht
      (fun v hv => (hplain v (hmem v hv)).1) fun v hv => (hplain v (hmem v hv)).2
    have hread : decide (n < n + (k + 1)) = true := by simp
    rw [hread, List.drop_append_of_le_length hk, List.append_assoc, List.singleton_append, hskip,
      List.length_drop]
    congr 1
    omega

/-- In front of the semicolon, no more than the segment was read. -/
theorem position_le_of_inside {c : Cursor} (hinside : c.Inside (seg ++ [t])) (hrest : c.rest ≠ []) :
    c.position ≤ seg.length := by
  by_contra hlt
  have hlength : (seg ++ [t]).length ≤ c.position := by
    rw [List.length_append, List.length_singleton]
    omega
  exact hrest (hinside.rest_eq.trans (List.drop_eq_nil_of_le hlength))

/-- Behind an error in the segment, all of it is skipped. -/
theorem skipToBoundary_inside (hseg : Segment seg) (ht : t.kind = .symbol .semicolon) {c : Cursor}
    (hinside : c.Inside (seg ++ [t])) (hrest : c.rest ≠ []) :
    skipToBoundary (decide (0 < c.position)) c.position c.rest = (seg.length + 1, []) := by
  have hskip := skipToBoundary_segment hseg ht (position_le_of_inside hinside hrest) 0 []
  rwa [List.append_nil, ← hinside.rest_eq, Nat.zero_add, Nat.zero_add] at hskip

theorem resumed_segment_rest (hseg : Segment seg) (ht : t.kind = .symbol .semicolon) {c : Cursor}
    (hinside : c.Inside (seg ++ [t])) (hrest : c.rest ≠ []) : (resumed 0 c).rest = [] :=
  congrArg Prod.snd (skipToBoundary_inside hseg ht hinside hrest)

/-- The way on behind an error in a segment is the same in all surroundings. -/
theorem resumed_segment (hseg : Segment seg) (ht : t.kind = .symbol .semicolon) {c : Cursor}
    (hinside : c.Inside (seg ++ [t])) (hrest : c.rest ≠ []) (S : Surroundings) :
    resumed S.read (S.place c) = S.place (resumed 0 c) := by
  -- both ways end right behind the semicolon, which is the last token of the piece
  have hpiece := skipToBoundary_inside hseg ht hinside hrest
  have hwhole :=
    skipToBoundary_segment hseg ht (position_le_of_inside hinside hrest) S.read S.behind
  rw [← hinside.rest_eq] at hwhole
  show Cursor.mk
      (skipToBoundary (decide (S.read < S.read + c.position)) (S.read + c.position)
        (c.rest ++ S.behind)).2 S.endLine
      (skipToBoundary (decide (S.read < S.read + c.position)) (S.read + c.position)
        (c.rest ++ S.behind)).1 (S.noted ++ c.errors)
    = Cursor.mk ((skipToBoundary (decide (0 < c.position)) c.position c.rest).2 ++ S.behind)
      S.endLine (S.read + (skipToBoundary (decide (0 < c.position)) c.position c.rest).1)
      (S.noted ++ c.errors)
  rw [hpiece, hwhole, List.nil_append, Nat.add_assoc]

theorem bodyOf_segment (hseg : Segment seg) (ht : t.kind = .symbol .semicolon) :
    bodyOf (seg ++ [t]) = seg ++ [t] := by
  refine List.takeWhile_eq_self_iff.mpr ?_
  intro u hu
  rcases List.mem_append.mp hu with hmem | hmem
  · simpa using (hseg.plain u hmem).2.2.2
  · rw [List.mem_singleton.mp hmem, ht]
    rfl

/-- At the start, the cursor is in the segment. -/
theorem inSegment_ofTokens (hseg : Segment seg) (ht : t.kind = .symbol .semicolon) :
    Cursor.InSegment (.ofTokens (seg ++ [t])) := by
  refine ⟨seg, t, bodyOf_segment hseg ht, ht, ?_⟩
  intro u hu
  obtain ⟨hsemicolon, hleft, -, hend⟩ := hseg.plain u hu
  exact ⟨hsemicolon, hleft, hend⟩

/-- One declaration takes a segment and its semicolon, read or given up, in all surroundings. -/
theorem declaration_segment (hseg : Segment seg) (ht : t.kind = .symbol .semicolon)
    (bound depth : Nat) :
    ∃ o c', declaration bound (statement depth) (.ofTokens (seg ++ [t])) = .ok o c' ∧ c'.rest = [] ∧
      ∀ S : Surroundings, declaration bound (statement depth) (S.place (.ofTokens (seg ++ [t])))
        = .ok o (S.place c') := by
  have hdelimited := statement_delimited depth
  have hitem := item_closes bound depth (inSegment_ofTokens hseg ht)
  cases hrun : item bound (statement depth) (Cursor.ofTokens (seg ++ [t])).current
      (.ofTokens (seg ++ [t])) with
  | ok s c' =>
    refine ⟨some s, c', declaration_ok hrun, hitem.ok hrun, ?_⟩
    intro S
    exact declaration_place_ok hdelimited S hrun
  | error e c' =>
    -- the item has failed in front of the semicolon, so the end of the piece is not in sight
    have hfailed : c'.rest ≠ [] := (hitem.error hrun).rest_ne_nil
    have hsteps := (item_delimited hdelimited bound _).within.steps_error hrun
    have hinside : Cursor.Inside (seg ++ [t]) (c'.record e) := by
      have hinside := (Cursor.inside_ofTokens (seg ++ [t])).steps (hsteps.tail (.note c' e))
      rwa [bodyOf_segment hseg ht] at hinside
    refine ⟨none, _, declaration_error hrun, resumed_segment_rest hseg ht hinside hfailed, ?_⟩
    intro S
    rw [declaration_place_error hdelimited hrun (.inl hfailed)]
    congr 1
    exact resumed_segment hseg ht hinside hfailed S

end Parse

end Scriptlet
