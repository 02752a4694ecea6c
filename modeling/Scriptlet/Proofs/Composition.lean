import Scriptlet.Proofs.Segments

/-! # Programs are parsed piece by piece

An input can be cut in two and parsed in parts, with the same statements and the same errors, where
the first part is either free of errors or one statement up to its semicolon, however broken. In the
first case every declaration of the part has been read, and what has been read does not depend on
what comes behind it. In the second case one declaration takes the whole part. The second part then
starts where it would start by itself, only behind what has been read and noted before.

## Main statement

* `parsing_composes`: parsing the two parts one after the other is parsing them together.
-/

namespace Scriptlet

open Relation

namespace Parse

/-! ## Declarations one after another -/

/-- Declarations are read, one by one and each in front of a token, from a cursor to another. -/
inductive Rounds (decl : Parse (Option Stmt)) : Cursor → List Stmt → Cursor → Prop where
  | done (c : Cursor) : Rounds decl c [] c
  | round {c c₁ c' : Cursor} {o : Option Stmt} {ss : List Stmt}
      (hc : c.current.kind ≠ .endOfInput) (h : decl c = .ok o c₁) (hnext : Rounds decl c₁ ss c') :
      Rounds decl c (o.toList ++ ss) c'

section Rounds

variable {decl : Parse (Option Stmt)} {stmt : Parse Stmt} {c c₁ c' : Cursor} {ss ss' : List Stmt}
  {bound : Nat}

/-- Declarations can be read in two parts. -/
theorem Rounds.trans (h : Rounds decl c ss c₁) (h' : Rounds decl c₁ ss' c') :
    Rounds decl c (ss ++ ss') c' := by
  induction h with
  | done c => exact h'
  | round hc hdecl _ ih =>
    rw [List.append_assoc]
    exact .round hc hdecl (ih h')

/-- Reading declarations moves by the steps that reading one of them takes. -/
theorem Rounds.steps (hdecl : decl.Within Cursor.Step) (h : Rounds decl c ss c') :
    ReflTransGen Cursor.Step c c' := by
  induction h with
  | done c => exact .refl
  | round _ hround _ ih => exact (hdecl.steps_ok hround).trans ih

/-- Declarations that each read a token come to the end of the input. -/
theorem exists_rounds (hdecl : ∀ c, c.rest ≠ [] → decl.Advances c) (c : Cursor) :
    ∃ ss c', Rounds decl c ss c' ∧ c'.current.kind = .endOfInput := by
  induction hn : c.rest.length using Nat.strong_induction_on generalizing c with
  | _ n ih =>
    by_cases hend : c.current.kind = .endOfInput
    · exact ⟨[], c, .done c, hend⟩
    · obtain ⟨o, c₁, hround, hsteps, -, hlt⟩ := hdecl c (rest_ne_nil hend)
      have hposition := Cursor.position_add_length_rest hsteps
      obtain ⟨ss, c', hrounds, hend'⟩ := ih c₁.rest.length (by omega) c₁ rfl
      exact ⟨o.toList ++ ss, c', .round hend hround hrounds, hend'⟩

/-- The loop of a program makes these rounds, if its bound leaves one for every token. -/
theorem Rounds.declarations (hdecl : ∀ c, c.rest ≠ [] → decl.Advances c) (h : Rounds decl c ss c')
    (hend : c'.current.kind = .endOfInput) (hbound : c.rest.length < bound) (found : List Stmt) :
    declarations (fun _ => false) decl bound found c = .ok (found.reverse ++ ss) c' := by
  -- along the rounds; the bound is above the number of tokens left, so it never runs out
  induction h generalizing bound found with
  | done c =>
    obtain _ | bound := bound
    · exact absurd hbound (Nat.not_lt_zero _)
    · show (if _ then _ else _ : Parse (List Stmt)) c = _
      rw [if_pos (.inl hend), List.append_nil]
      rfl
  | @round c c₁ c' o ss hc hround _ ih =>
    obtain _ | bound := bound
    · exact absurd hbound (Nat.not_lt_zero _)
    · obtain ⟨o', c₁', hround', hsteps, -, hlt⟩ := hdecl c (rest_ne_nil hc)
      cases hround.symm.trans hround'
      have hposition := Cursor.position_add_length_rest hsteps
      have hleft : c₁.rest.length < bound := by omega
      have hloop := ih hend hleft (o.toList ++ found)
      have hstop : ¬ (c.current.kind = .endOfInput ∨ false = true) := by
        simpa using hc
      show (if _ then _ else _ : Parse (List Stmt)) c = _
      rw [if_neg hstop]
      refine (EStateM.bind_of_ok hround).trans (hloop.trans ?_)
      cases o with
      | none => rfl
      | some s => simp

/-- Rounds that stop before the end of a piece is in sight are made in all surroundings. -/
theorem Rounds.place {S : Surroundings} (hdecl : decl.Local) (h : Rounds decl c ss c')
    (hhidden : S.Hidden c') : Rounds decl (S.place c) ss (S.place c') := by
  induction h with
  | done c => exact .done _
  | round hc hround hnext ih =>
    have hhidden₁ := Surroundings.hidden_steps (hnext.steps hdecl.within) hhidden
    refine .round ?_ (hdecl.ok S hround hhidden₁) (ih hhidden)
    rwa [Surroundings.place_current (.inl (rest_ne_nil hc))]

/-- So are rounds without an error, wherever they stop: each has read a declaration of its own. -/
theorem Rounds.place_of_errors_eq (hstmt : stmt.Delimited)
    (h : Rounds (declaration bound stmt) c ss c') (herrors : c'.errors = c.errors)
    (S : Surroundings) : Rounds (declaration bound stmt) (S.place c) ss (S.place c') := by
  have hwithin := (declaration_local hstmt bound).within
  induction h with
  | done c => exact .done _
  | @round c c₁ c' o ss hc hround hnext ih =>
    have herrors₁ : c₁.errors = c.errors :=
      Cursor.errors_eq_of_between (hwithin.steps_ok hround) (hnext.steps hwithin) herrors
    have hplaced : declaration bound stmt (S.place c) = .ok o (S.place c₁) := by
      cases hitem : item bound stmt c.current c with
      | ok s c₂ =>
        cases (declaration_ok hitem).symm.trans hround
        exact declaration_place_ok hstmt S hitem
      | error e c₂ =>
        -- a declaration that is given up leaves an error behind
        cases (declaration_error hitem).symm.trans hround
        have hgrow := (Cursor.errors_grow
          ((item_delimited hstmt bound c.current).within.steps_error hitem)).length_le
        have hsize := congrArg Array.size herrors₁
        rw [resumed_errors, Cursor.record, Array.size_push] at hsize
        simp only [Array.length_toList] at hgrow
        omega
    refine .round ?_ hplaced (ih (herrors.trans herrors₁.symm))
    rwa [Surroundings.place_current (.inl (rest_ne_nil hc))]

end Rounds

end Parse

/-! ## Whole inputs -/

open Parse

variable {ts ts₁ ts₂ : List Token} {ss : List Stmt} {c : Cursor} {bound : Nat}

/-- A declaration reads a token at least, however it ends. -/
theorem declaration_statement_advances (bound : Nat) (c : Cursor) (hc : c.rest ≠ []) :
    (declaration bound (statement bound)).Advances c :=
  declaration_advances (statement_paysItsWay bound) bound hc

/-- Parsing makes the rounds that there are, with any bound above the number of tokens. -/
theorem parseProgram_eq (hbound : (bodyOf ts).length < bound)
    (h : Rounds (declaration bound (statement bound)) (.ofTokens ts) ss c)
    (hend : c.current.kind = .endOfInput) :
    parseProgram ts = { result := ss, errors := c.errors.toList } := by
  have hloop : program bound (.ofTokens ts) = .ok ss c :=
    h.declarations (declaration_statement_advances bound) hend hbound []
  have hlength := length_bodyOf_le ts
  have hagree : program bound (.ofTokens ts) = program (ts.length + 1) (.ofTokens ts) :=
    program_agree (n := (bodyOf ts).length + 1) (by omega) _ (Nat.lt_succ_self _)
  unfold parseProgram
  rw [← hagree, hloop]

/-- A first part without end mark stands in front of what is read of the second part. -/
theorem bodyOf_append (h : ∀ t ∈ ts₁, t.kind ≠ .endOfInput) :
    bodyOf (ts₁ ++ ts₂) = ts₁ ++ bodyOf ts₂ :=
  List.takeWhile_append_of_pos (by simpa using h)

/-- Behind tokens of another part, a part that is not empty ends on the same line. -/
theorem endLine_append (h : ∀ t ∈ ts₁, t.kind ≠ .endOfInput) (hne : ts₂ ≠ []) :
    (Cursor.ofTokens (ts₁ ++ ts₂)).endLine = (Cursor.ofTokens ts₂).endLine := by
  have hdrop : (ts₁ ++ ts₂).dropWhile (·.kind ≠ .endOfInput)
      = ts₂.dropWhile (·.kind ≠ .endOfInput) :=
    List.dropWhile_append_of_pos (by simpa using h)
  have hbody : (ts₁ ++ ts₂).takeWhile (·.kind ≠ .endOfInput)
      = ts₁ ++ ts₂.takeWhile (·.kind ≠ .endOfInput) := bodyOf_append h
  unfold Cursor.ofTokens
  simp only [hdrop, hbody]
  split
  · rfl
  · next hmark =>
    -- without an end mark the part is its own body, so its last token is the last one of all
    have hself : ts₂.takeWhile (·.kind ≠ .endOfInput) = ts₂ := by
      have hsplit := List.takeWhile_append_dropWhile
        (p := fun t : Token => decide (t.kind ≠ .endOfInput)) (l := ts₂)
      rwa [hmark, List.append_nil] at hsplit
    rw [hself, List.getLast?_append, Option.or_of_isSome (by simpa using hne)]

/-- The end mark is no `else` either. -/
theorem head?_bodyOf (h : ∀ t ∈ ts.head?, t.kind ≠ .keyword .else_) :
    ∀ t ∈ (bodyOf ts).head?, t.kind ≠ .keyword .else_ := by
  intro t ht
  cases ts with
  | nil => cases ht
  | cons u ts =>
    rw [bodyOf, List.takeWhile_cons] at ht
    split at ht
    · exact h t ht
    · cases ht

namespace Surroundings

/-- A second part surrounds the first part in front of it. -/
def inFrontOf (ts₂ : List Token) (h : ∀ t ∈ ts₂.head?, t.kind ≠ .keyword .else_) :
    Surroundings where
  read := 0
  noted := #[]
  behind := bodyOf ts₂
  endLine := (Cursor.ofTokens ts₂).endLine
  no_else := head?_bodyOf h

/-- A first part that has been read up to `c` surrounds the second part behind it. -/
def after (c : Cursor) (ts₂ : List Token) : Surroundings where
  read := c.position
  noted := c.errors
  behind := []
  endLine := (Cursor.ofTokens ts₂).endLine
  no_else := by simp

/-- A first part, placed in front of a second one, is the start of both together. -/
theorem inFrontOf_place {h : ∀ t ∈ ts₂.head?, t.kind ≠ .keyword .else_}
    (hmark : ∀ t ∈ ts₁, t.kind ≠ .endOfInput) (hne : ts₂ ≠ []) :
    (inFrontOf ts₂ h).place (.ofTokens ts₁) = .ofTokens (ts₁ ++ ts₂) := by
  have hself : bodyOf ts₁ = ts₁ := List.takeWhile_eq_self_iff.mpr (by simpa using hmark)
  have hrest : (Cursor.ofTokens (ts₁ ++ ts₂)).rest = bodyOf ts₁ ++ bodyOf ts₂ := by
    rw [hself]
    exact bodyOf_append hmark
  have hline := endLine_append hmark hne
  show Cursor.mk (bodyOf ts₁ ++ bodyOf ts₂) (Cursor.ofTokens ts₂).endLine 0 (#[] ++ #[]) = _
  rw [← hrest, ← hline]
  rfl

/-- Where the first part has been read, the second part begins. -/
theorem inFrontOf_place_eq_after {h : ∀ t ∈ ts₂.head?, t.kind ≠ .keyword .else_}
    (hc : c.rest = []) :
    (inFrontOf ts₂ h).place c = (after c ts₂).place (.ofTokens ts₂) := by
  show Cursor.mk (c.rest ++ bodyOf ts₂) _ (0 + c.position) (#[] ++ c.errors)
    = Cursor.mk (bodyOf ts₂ ++ []) _ (c.position + 0) (c.errors ++ #[])
  rw [hc, List.nil_append, List.append_nil, Nat.zero_add, Array.empty_append, Array.append_empty]
  rfl

end Surroundings

/-- A part that is free of errors, or a segment up to its semicolon, takes the same rounds in all
surroundings. -/
theorem exists_rounds_placed (hbound : (bodyOf ts₁).length < bound)
    (h : (parseProgram ts₁).errors = [] ∨
      ∃ seg t, ts₁ = seg ++ [t] ∧ t.kind = .symbol .semicolon ∧ Segment seg) :
    ∃ ss c, Rounds (declaration bound (statement bound)) (.ofTokens ts₁) ss c ∧
      c.current.kind = .endOfInput ∧
      ∀ S : Surroundings,
        Rounds (declaration bound (statement bound)) (S.place (.ofTokens ts₁)) ss (S.place c) := by
  -- either the first part has no errors, or it is one segment, whose errors stay within it
  rcases h with hnone | ⟨seg, t, rfl, ht, hseg⟩
  · obtain ⟨ss, c, hrounds, hend⟩ :=
      exists_rounds (declaration_statement_advances bound) (.ofTokens ts₁)
    have herrors : c.errors = #[] := by
      rw [parseProgram_eq hbound hrounds hend] at hnone
      exact Array.toList_eq_nil_iff.mp hnone
    refine ⟨ss, c, hrounds, hend, ?_⟩
    intro S
    exact hrounds.place_of_errors_eq (statement_delimited bound) herrors S
  · obtain ⟨o, c, hdecl, hrest, hplaced⟩ := declaration_segment hseg ht bound bound
    have hstart := (inSegment_ofTokens hseg ht).current_ne.2
    have hend : c.current.kind = .endOfInput := by
      simp [Cursor.current, hrest, Token.atEnd]
    refine ⟨o.toList ++ [], c, .round hstart hdecl (.done c), hend, ?_⟩
    intro S
    refine .round ?_ (hplaced S) (.done _)
    rwa [Surroundings.place_current (.inl (rest_ne_nil hstart))]

/-- An input can be parsed in two parts: the statements and the errors of the whole are those of its
first part followed by those of its second one. The first part has no end mark and is either free of
errors or a `Segment` up to its semicolon, which may be malformed in any way. The second part may be
any list of tokens that does not begin with an `else`. -/
theorem parsing_composes (ts₁ ts₂ : List Token) (hmark : ∀ t ∈ ts₁, t.kind ≠ .endOfInput)
    (h₁ : (parseProgram ts₁).errors = [] ∨
      ∃ seg t, ts₁ = seg ++ [t] ∧ t.kind = .symbol .semicolon ∧ Segment seg)
    (h₂ : ∀ t ∈ ts₂.head?, t.kind ≠ .keyword .else_) :
    parseProgram (ts₁ ++ ts₂)
      = { result := (parseProgram ts₁).result ++ (parseProgram ts₂).result
          errors := (parseProgram ts₁).errors ++ (parseProgram ts₂).errors } := by
  by_cases hne : ts₂ = []
  · subst hne
    have hempty : parseProgram [] = { result := [], errors := [] } := rfl
    rw [hempty, List.append_nil, List.append_nil, List.append_nil]
  -- one bound for all three runs
  obtain ⟨bound, hwhole, hfirst, hsecond⟩ : ∃ bound, (bodyOf (ts₁ ++ ts₂)).length < bound ∧
      (bodyOf ts₁).length < bound ∧ (bodyOf ts₂).length < bound := by
    have hlength₁ := length_bodyOf_le ts₁
    have hlength₂ := length_bodyOf_le ts₂
    have hlength := length_bodyOf_le (ts₁ ++ ts₂)
    rw [List.length_append] at hlength
    exact ⟨ts₁.length + ts₂.length + 1, by omega, by omega, by omega⟩
  have hlocal := declaration_local (statement_delimited bound) bound
  obtain ⟨ss₁, c₁, hrounds₁, hend₁, hplaced₁⟩ := exists_rounds_placed hfirst h₁
  obtain ⟨ss₂, c₂, hrounds₂, hend₂⟩ :=
    exists_rounds (declaration_statement_advances bound) (.ofTokens ts₂)
  have hrest₁ := rest_eq_nil_of_steps (hrounds₁.steps hlocal.within) hend₁
  have hhidden : (Surroundings.after c₁ ts₂).Hidden c₂ :=
    .inr ⟨rfl, (Cursor.endLine_eq (hrounds₂.steps hlocal.within)).symm⟩
  -- the rounds of the first part lead to where the rounds of the second part begin
  have hrounds : Rounds (declaration bound (statement bound)) (.ofTokens (ts₁ ++ ts₂)) (ss₁ ++ ss₂)
      ((Surroundings.after c₁ ts₂).place c₂) := by
    have hthere := hplaced₁ (.inFrontOf ts₂ h₂)
    rw [Surroundings.inFrontOf_place hmark hne,
      Surroundings.inFrontOf_place_eq_after hrest₁] at hthere
    exact hthere.trans (hrounds₂.place hlocal hhidden)
  have hend : ((Surroundings.after c₁ ts₂).place c₂).current.kind = .endOfInput := by
    rwa [Surroundings.place_current hhidden]
  rw [parseProgram_eq hwhole hrounds hend, parseProgram_eq hfirst hrounds₁ hend₁,
    parseProgram_eq hsecond hrounds₂ hend₂]
  simp [Surroundings.place, Surroundings.after]

/-- A stray brace costs one error, behind a broken declaration as well as behind an open `if`. -/
theorem parsing_composes_stray_brace :
    let broken : List Token :=
      [⟨.keyword .var_, "var", 1, none⟩, ⟨.symbol .plus, "+", 1, none⟩,
        ⟨.symbol .semicolon, ";", 1, none⟩]
    let opened : List Token :=
      [⟨.keyword .if_, "if", 1, none⟩, ⟨.symbol .leftParen, "(", 1, none⟩,
        ⟨.identifier, "a", 1, none⟩, ⟨.symbol .rightParen, ")", 1, none⟩,
        ⟨.identifier, "b", 1, none⟩, ⟨.symbol .semicolon, ";", 1, none⟩]
    let stray : List Token :=
      [⟨.symbol .rightBrace, "\x7d", 2, none⟩, ⟨.keyword .print_, "print", 2, none⟩,
        ⟨.identifier, "c", 2, none⟩, ⟨.symbol .semicolon, ";", 2, none⟩]
    parseProgram (broken ++ stray)
      = { result := [.print 2 (.ident 2 "c")]
          errors := [.missingVariableName "+" 1, .expressionExpected "\x7d" 2] } ∧
    parseProgram (opened ++ stray)
      = { result := [.ifThen 1 (.ident 1 "a") (.expression 1 (.ident 1 "b")) none,
            .print 2 (.ident 2 "c")]
          errors := [.expressionExpected "\x7d" 2] } := by
  intro broken opened stray
  have hseg : Segment [⟨.keyword .var_, "var", 1, none⟩, ⟨.symbol .plus, "+", 1, none⟩] :=
    ⟨by decide, by decide⟩
  constructor
  · rw [parsing_composes broken stray (by decide) (.inr ⟨_, _, rfl, rfl, hseg⟩) (by decide)]
    rfl
  · rw [parsing_composes opened stray (by decide) (.inl rfl) (by decide)]
    rfl

end Scriptlet
