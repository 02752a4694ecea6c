import Mathlib.Data.List.TakeWhile
import Scriptlet.Parse.Statement
import Scriptlet.Proofs.Levels

/-! # Programs by recursive descent and the grammar

The parser for programs accepts exactly the programs of the grammar. An error anywhere, also one that
was recovered from inside a block, is noted and stays noted; so a parse without errors has never left
the grammar, and its result is a derivation of all tokens. Conversely, on the tokens of a derivation
no error is found and no bound on the depth of nesting is reached.

The dangling `else` is what couples a statement to the token behind it: a statement that ends in an
open `if` is only ever read in front of something else than an `else`.

## Main statement

* `descent_accepts_grammar`: a program is parsed without errors if and only if its tokens derive it,
  and they derive no other program.
-/

namespace Scriptlet

namespace Parse

open Grammar Relation

/-- Where a statement ends in an open `if`, no `else` comes next. -/
def NoElse (s : Stmt) (rest : List Token) : Prop :=
  s.endsOpen = true → ∀ t ∈ rest.head?, t.kind ≠ .keyword .else_

/-- A statement that does not end in an open `if` may be followed by anything. -/
theorem noElse_of_closed {s : Stmt} (h : s.endsOpen = false) (rest : List Token) :
    NoElse s rest := by
  intro hopen
  rw [h] at hopen
  cases hopen

/-! ## Soundness -/

section Sound

/-- A token that has been seen and is not the end stands in front of the cursor. -/
theorem peeked_cons {ts : List Token} {t : Token}
    (h : ts = [] ∧ t.kind = .endOfInput ∨ ∃ rest, ts = t :: rest) (ht : t.kind ≠ .endOfInput) :
    ∃ rest, ts = t :: rest := by
  rcases h with ⟨-, hend⟩ | hcons
  · exact absurd hend ht
  · exact hcons

/-- What is read for a semicolon is one. -/
theorem semicolon_sound (after : Clause) :
    (semicolon after).Sound fun ts _ ts' => ∃ t, ts = t :: ts' ∧ t.kind = .symbol .semicolon := by
  refine (expect_sound _ _).bind fun t => .pure ?_
  intro ts ts₀ h
  exact ⟨t, h⟩

/-- What is read as a condition derives it. -/
theorem condition_sound (bound : Nat) (keyword : Keyword) :
    (condition bound keyword).Sound fun ts e ts' => ∃ w, ts = w ++ ts' ∧ Condition w e := by
  refine (expect_sound _ _).bind fun t => (expression_sound bound).bind fun e =>
    (expect_sound _ _).bind fun t' => .pure ?_
  rintro ts _ ⟨rfl, hclose⟩ _ ⟨w, rfl, he⟩ _ ⟨rfl, hopen⟩
  exact ⟨t :: (w ++ [t']), by simp, .mk hopen he hclose⟩

/-- The tokens read derive the statement, and what comes next is no `else` of its own. -/
def StatementRead (ts : List Token) (s : Stmt) (ts' : List Token) : Prop :=
  ∃ w, ts = w ++ ts' ∧ Statement w s ∧ NoElse s ts'

/-- The tokens read derive the declaration. -/
def DeclarationRead (ts : List Token) (s : Stmt) (ts' : List Token) : Prop :=
  ∃ w, ts = w ++ ts' ∧ Declaration w s

/-- What is read from `var` on derives a declaration. -/
theorem varDeclaration_sound (bound : Nat) :
    (varDeclaration bound).Sound fun ts s ts' =>
      (∃ t rest, ts = t :: rest ∧ t.kind = .keyword .var_) → DeclarationRead ts s ts' := by
  refine peek_sound.bind fun t => advance_sound.bind fun _ => (expect_sound _ _).bind fun name =>
    (take?_sound _).bind fun o => ?_
  split
  · -- with a first value
    rw [map_eq_pure_bind, bind_assoc]
    refine (expression_sound bound).bind fun e => ?_
    rw [pure_bind]
    refine (semicolon_sound _).bind fun _ => .pure ?_
    rintro ts _ ⟨t', rfl, ht'⟩ _ ⟨w, rfl, he⟩ _ ⟨eq, rfl, heq, -⟩ _ ⟨rfl, hname⟩ _ htail _
      ⟨rfl, hpeek⟩ ⟨u, rest, hu, hvar⟩
    subst hu
    -- the token that was looked at is the keyword that was read
    rcases hpeek with ⟨hnil, -⟩ | ⟨rest', hcons⟩
    · cases hnil
    cases hcons
    simp only [List.tail_cons] at htail
    subst htail
    exact ⟨t :: name :: eq :: (w ++ [t']), by simp, .varInitial hvar hname heq he ht'⟩
  · rw [pure_bind]
    refine (semicolon_sound _).bind fun _ => .pure ?_
    rintro ts _ ⟨t', rfl, ht'⟩ _ ⟨rfl, -⟩ _ ⟨rfl, hname⟩ _ htail _ ⟨rfl, hpeek⟩ ⟨u, rest, hu, hvar⟩
    subst hu
    rcases hpeek with ⟨hnil, -⟩ | ⟨rest', hcons⟩
    · cases hnil
    cases hcons
    simp only [List.tail_cons] at htail
    subst htail
    exact ⟨[t, name, t'], rfl, .var hvar hname ht'⟩

/-- Skipping is reading. -/
theorem skipToBoundary_reads (read : Bool) (line n : Nat) (es : Array SyntaxError)
    (ts : List Token) :
    ReflTransGen Cursor.Read ⟨ts, line, n, es⟩
      ⟨(skipToBoundary read n ts).2, line, (skipToBoundary read n ts).1, es⟩ := by
  induction ts generalizing read n with
  | nil => exact .refl
  | cons t rest ih =>
    unfold skipToBoundary
    split
    · exact .single (.mk t rest line n es)
    · split
      · exact .refl
      · exact .head (.mk t rest line n es) (ih true (n + 1))

theorem resync_within (start : Nat) : (resync start).Within Cursor.Step := by
  have h : (resync start).Within Cursor.Read := fun c => skipToBoundary_reads _ _ _ _ _
  exact h.step

/-- A declaration that cannot be read leaves an error behind. -/
theorem declaration_sound {stmt : Parse Stmt} (h : stmt.Sound StatementRead) (bound : Nat) :
    (declaration bound stmt).Sound fun ts o ts' => ∃ s, o = some s ∧ DeclarationRead ts s ts' := by
  refine get_sound.bind fun c => peek_sound.bind fun first => ?_
  -- a declaration and a statement differ in the first token, which is only looked at
  have hread : (if first.kind = .keyword .var_ then varDeclaration bound else stmt).Sound
      fun ts s ts' => (first.kind = .keyword .var_ → ∃ rest, ts = first :: rest) →
        DeclarationRead ts s ts' := by
    split
    · next hvar =>
      refine (varDeclaration_sound bound).mono fun ts s ts' hs hfirst => hs ?_
      obtain ⟨rest, hrest⟩ := hfirst hvar
      exact ⟨first, rest, hrest, hvar⟩
    · refine h.mono ?_
      rintro ts s ts' ⟨w, rfl, hs, -⟩ -
      exact ⟨w, rfl, .statement hs⟩
  refine hread.attempt.bind fun o => ?_
  split
  · next s =>
    refine .pure ?_
    rintro ts _ hs ts₀ ⟨rfl, hpeek⟩ _ rfl
    exact ⟨s, rfl, hs s rfl fun hvar => peeked_cons hpeek (by rw [hvar]; decide)⟩
  · have hfalse := record_sound (R := fun _ _ _ => False)
    refine (hfalse _).bind fun _ => ?_
    refine ⟨(resync_within _).bind fun _ => .pure _, ?_⟩
    intro c c' a _ _ ts₀ hts₀
    exact hts₀.elim

/-- The declarations read, behind those found before. With rounds enough for all tokens, reading goes
on until something stops it. -/
theorem declarations_sound {stops : TokenKind → Bool} {decl : Parse (Option Stmt)}
    (h : decl.Sound fun ts o ts' => ∃ s, o = some s ∧ DeclarationRead ts s ts') (bound : Nat)
    (found : List Stmt) :
    (declarations stops decl bound found).Sound fun ts p ts' =>
      ∃ w ds, ts = w ++ ts' ∧ Declarations w ds ∧ p = found.reverse ++ ds ∧
        (ts.length < bound → ∀ t ∈ ts'.head?, t.kind = .endOfInput ∨ stops t.kind = true) := by
  -- on the bound: every declaration reads a token, so the bound lasts to the end
  induction bound generalizing found with
  | zero =>
    refine .pure fun ts => ⟨[], [], rfl, .nil, by simp, ?_⟩
    intro hlt
    omega
  | succ bound ih =>
    refine peek_sound.bind fun next => ?_
    split
    · next hstop =>
      refine .pure ?_
      rintro ts _ ⟨rfl, hpeek⟩
      refine ⟨[], [], rfl, .nil, by simp, ?_⟩
      intro _ t ht
      rcases hpeek with ⟨rfl, -⟩ | ⟨rest, rfl⟩
      · cases ht
      · cases ht
        exact hstop
    · refine h.bind fun o => (ih (o.toList ++ found)).mono ?_
      rintro ts p ts' ⟨w₂, ds, rfl, hds, rfl, hend⟩ _ ⟨s, rfl, w₁, rfl, hs⟩ _ ⟨rfl, -⟩
      refine ⟨w₁ ++ w₂, s :: ds, by simp, .cons hs hds, by simp, ?_⟩
      intro hlt
      have hpos := List.length_pos_iff.mpr hs.ne_nil
      apply hend
      simp only [List.length_append] at hlt ⊢
      omega

/-- What is read as a statement derives it, and no `else` of its own comes next. -/
theorem statement_sound (bound : Nat) : (statement bound).Sound StatementRead := by
  induction bound with
  | zero => exact noExpression_sound
  | succ bound ih =>
    refine peek_sound.bind fun first => ?_
    split
    · -- `print`
      next hkind =>
      refine advance_sound.bind fun _ => (expression_sound _).bind fun e =>
        (semicolon_sound _).bind fun _ => .pure ?_
      rintro ts _ ⟨t', rfl, ht'⟩ _ ⟨w, rfl, he⟩ _ htail _ ⟨rfl, hpeek⟩
      obtain ⟨rest, rfl⟩ := peeked_cons hpeek (by rw [hkind]; decide)
      simp only [List.tail_cons] at htail
      subst htail
      exact ⟨first :: (w ++ [t']), by simp, .print hkind he ht', noElse_of_closed rfl _⟩
    · -- `if`: an `else` is taken whenever there is one
      next hkind =>
      refine advance_sound.bind fun _ => (condition_sound _ _).bind fun e => ih.bind fun yes =>
        (take?_sound _).bind fun o => ?_
      split
      · refine ih.bind fun no => .pure ?_
        rintro ts _ ⟨w₃, rfl, hno, hopen⟩ _ ⟨t', rfl, ht', -⟩ _ ⟨w₂, rfl, hyes, hnoElse⟩ _
          ⟨w₁, rfl, he⟩ _ htail _ ⟨rfl, hpeek⟩
        obtain ⟨rest, rfl⟩ := peeked_cons hpeek (by rw [hkind]; decide)
        simp only [List.tail_cons] at htail
        subst htail
        -- the first branch stopped in front of this `else`, so it does not end in an open `if`
        have hclosed : yes.endsOpen = false := by
          cases hyesOpen : yes.endsOpen with
          | false => rfl
          | true => exact absurd ht' (hnoElse hyesOpen t' rfl)
        exact ⟨first :: (w₁ ++ (w₂ ++ t' :: w₃)), by simp,
          .ifElse hkind he hyes hclosed ht' hno, hopen⟩
      · refine .pure ?_
        rintro ts _ ⟨rfl, hnext⟩ _ ⟨w₂, rfl, hyes, -⟩ _ ⟨w₁, rfl, he⟩ _ htail _ ⟨rfl, hpeek⟩
        obtain ⟨rest, rfl⟩ := peeked_cons hpeek (by rw [hkind]; decide)
        simp only [List.tail_cons] at htail
        subst htail
        exact ⟨first :: (w₁ ++ w₂), by simp, .ifThen hkind he hyes, fun _ => hnext⟩
    · -- `while`
      next hkind =>
      refine advance_sound.bind fun _ => (condition_sound _ _).bind fun e => ih.bind fun body =>
        .pure ?_
      rintro ts _ ⟨w₂, rfl, hbody, hopen⟩ _ ⟨w₁, rfl, he⟩ _ htail _ ⟨rfl, hpeek⟩
      obtain ⟨rest, rfl⟩ := peeked_cons hpeek (by rw [hkind]; decide)
      simp only [List.tail_cons] at htail
      subst htail
      exact ⟨first :: (w₁ ++ w₂), by simp, .whileDo hkind he hbody, hopen⟩
    · -- a block
      next hkind =>
      refine advance_sound.bind fun _ =>
        (declarations_sound (declaration_sound ih _) _ _).bind fun body =>
          (expect_sound _ _).bind fun t' => .pure ?_
      rintro ts _ ⟨rfl, ht'⟩ _ ⟨w, ds, rfl, hds, rfl, -⟩ _ htail _ ⟨rfl, hpeek⟩
      obtain ⟨rest, rfl⟩ := peeked_cons hpeek (by rw [hkind]; decide)
      simp only [List.tail_cons] at htail
      subst htail
      exact ⟨first :: (w ++ [t']), by simp, .block hkind hds ht', noElse_of_closed rfl _⟩
    · -- an expression statement
      refine (expression_sound _).bind fun e => (semicolon_sound _).bind fun _ => .pure ?_
      rintro ts _ ⟨t', rfl, ht'⟩ _ ⟨w, rfl, he⟩ _ ⟨rfl, -⟩
      exact ⟨w ++ [t'], by simp, .expression he ht', noElse_of_closed rfl _⟩

end Sound

/-! ## Completeness -/

section Complete

variable {w rest : List Token} {e : Expr} {s : Stmt}

/-- The kinds of tokens that an expression starts with. -/
def startsExpression : TokenKind → Bool
  | .number | .string | .identifier => true
  | .keyword .true_ | .keyword .false_ | .keyword .nil_ => true
  | .symbol .minus | .symbol .bang | .symbol .leftParen => true
  | _ => false

/-- An expression starts with a token that can start one. -/
theorem Expression.head {level : Precedence} (h : Expression level w e) :
    ∃ t w', w = t :: w' ∧ startsExpression t.kind = true := by
  induction h with
  | @assign t eq w e ht => exact ⟨t, eq :: w, rfl, by rw [ht]; rfl⟩
  | tighter _ _ ih => exact ih
  | @join _ w₁ w₂ t _ _ _ _ _ _ ihl =>
    obtain ⟨u, w', rfl, hu⟩ := ihl
    exact ⟨u, w' ++ t :: w₂, rfl, hu⟩
  | @unary t op w e hop =>
    refine ⟨t, w, rfl, ?_⟩
    generalize t.kind = kind at hop
    cases hop <;> rfl
  | @atom t e ht =>
    refine ⟨t, [], rfl, ?_⟩
    cases ht with
    | number ht | string ht | true_ ht | false_ ht | nil_ ht | ident ht =>
      rw [ht]
      rfl
  | @group t t' w e hopen => exact ⟨t, w ++ [t'], rfl, by rw [hopen]; rfl⟩

/-- The kinds of tokens that a statement starts with. -/
def startsStatement (kind : TokenKind) : Bool :=
  startsExpression kind || kind == .keyword .print_ || kind == .keyword .if_ ||
    kind == .keyword .while_ || kind == .symbol .leftBrace

/-- A statement starts with a token that can start one. -/
theorem Statement.head (h : Statement w s) :
    ∃ t w', w = t :: w' ∧ startsStatement t.kind = true := by
  cases h with
  | expression he =>
    obtain ⟨t, w', rfl, ht⟩ := Expression.head he
    exact ⟨t, _, rfl, by simp [startsStatement, ht]⟩
  | print ht | ifThen ht | ifElse ht | whileDo ht | block ht =>
    exact ⟨_, _, rfl, by rw [ht]; rfl⟩

/-- A declaration starts with `var` or as a statement does. -/
theorem Declaration.head (h : Declaration w s) :
    ∃ t w', w = t :: w' ∧ (t.kind = .keyword .var_ ∨ startsStatement t.kind = true) := by
  cases h with
  | statement hs =>
    obtain ⟨t, w', rfl, ht⟩ := Statement.head hs
    exact ⟨t, w', rfl, .inr ht⟩
  | var ht | varInitial ht => exact ⟨_, _, rfl, .inl ht⟩

theorem semicolon_runs {after : Clause} {t : Token} (ht : t.kind = .symbol .semicolon) :
    Accepts (semicolon after) [t] () rest :=
  Runs.bind_right (expect_runs ht)

/-- A condition is read as what it derives. -/
theorem condition_runs {bound : Nat} {keyword : Keyword} (hw : Condition w e)
    (hlength : w.length ≤ bound) : Accepts (condition bound keyword) w e rest := by
  cases hw with
  | @mk t t' w e hopen he hclose =>
    simp only [List.length_cons, List.length_append, List.length_nil] at hlength
    have hinner : Accepts (expression bound) w e ([t'] ++ rest) :=
      expression_runs he (by omega) (endsExpression_rightParen hclose rest)
    exact Runs.bind_cons (expect_runs hopen)
      (Runs.bind hinner (Runs.bind_right (expect_runs hclose)))

/-- A declaration without a first value is read as such. -/
theorem varDeclaration_runs {bound : Nat} {t name t' : Token} (hname : name.kind = .identifier)
    (ht' : t'.kind = .symbol .semicolon) :
    Accepts (varDeclaration bound) [t, name, t'] (.var t.line name.lexeme none) rest := by
  have hskip : Accepts (take? (.symbol .equal)) [] none ([t'] ++ rest) := by
    refine take?_skips fun u hu => ?_
    cases hu
    rw [ht']
    decide
  refine Runs.bind_nil peek_runs (Runs.bind_cons advance_runs (Runs.bind_cons (expect_runs hname)
    (Runs.bind_nil hskip ?_)))
  exact Runs.bind_nil (.nil (pure none)) (Runs.bind_right (semicolon_runs ht'))

/-- A declaration with a first value is read as such. -/
theorem varDeclaration_runs_initial {bound : Nat} {t name eq t' : Token}
    (hname : name.kind = .identifier) (heq : eq.kind = .symbol .equal)
    (he : Expression .assignment w e) (hlength : w.length ≤ bound)
    (ht' : t'.kind = .symbol .semicolon) :
    Accepts (varDeclaration bound) (t :: name :: eq :: (w ++ [t']))
      (.var t.line name.lexeme (some e)) rest := by
  have hvalue : Accepts (expression bound) w e ([t'] ++ rest) :=
    expression_runs he hlength (endsExpression_semicolon ht' rest)
  refine Runs.bind_nil peek_runs (Runs.bind_cons advance_runs (Runs.bind_cons (expect_runs hname)
    (Runs.bind_cons (take?_runs heq) ?_)))
  exact Runs.bind (hvalue.map some) (Runs.bind_right (semicolon_runs ht'))

/-- A declaration is read, if statements are. -/
theorem declaration_runs {bound limit : Nat} {stmt : Parse Stmt} (hw : Declaration w s)
    (hlength : w.length ≤ limit) (hbound : limit ≤ bound) (hrest : NoElse s rest)
    (hstmt : ∀ {w s rest}, Statement w s → w.length ≤ limit → NoElse s rest →
      Accepts stmt w s rest) : Accepts (declaration bound stmt) w (some s) rest := by
  obtain ⟨first, w', hfirst, hkind⟩ := Declaration.head hw
  have hread : Accepts (if first.kind = .keyword .var_ then varDeclaration bound else stmt)
      w s rest := by
    cases hw with
    | @var t name t' ht hname ht' =>
      cases hfirst
      rw [if_pos ht]
      exact varDeclaration_runs hname ht'
    | @varInitial t name eq t' w e ht hname heq he ht' =>
      cases hfirst
      rw [if_pos ht]
      simp only [List.length_cons, List.length_append, List.length_nil] at hlength
      exact varDeclaration_runs_initial hname heq he (by omega) ht'
    | statement hs =>
      -- no statement starts with `var`
      have hne : first.kind ≠ .keyword .var_ := by
        intro hvar
        obtain ⟨t, w'', hw, ht⟩ := Statement.head hs
        cases hfirst.symm.trans hw
        rw [hvar] at ht
        cases ht
      rw [if_neg hne]
      exact hstmt hs hlength hrest
  subst hfirst
  exact get_runs fun c => Runs.bind_nil peek_runs (Runs.bind_right (attempt_runs hread))

/-- What stands behind a declaration is no `else`: the next declaration, or what ends them all. -/
theorem noElse_of_declarations {ds : List Stmt} (hw : Declarations w ds)
    (hrest : ∀ t ∈ rest.head?, t.kind ≠ .keyword .else_) (s : Stmt) : NoElse s (w ++ rest) := by
  intro _ t ht
  cases hw with
  | nil => exact hrest t ht
  | cons hs _ =>
    obtain ⟨u, w', rfl, hu⟩ := Declaration.head hs
    cases ht
    intro helse
    rw [helse] at hu
    rcases hu with hu | hu <;> cases hu

/-- Declarations are read one by one, up to a token that stops them. -/
theorem declarations_runs {bound limit : Nat} {stops : TokenKind → Bool}
    {decl : Parse (Option Stmt)} {ds : List Stmt} (hw : Declarations w ds)
    (hlength : w.length ≤ limit) (hbound : w.length < bound)
    (hdecl : ∀ {w s rest}, Declaration w s → w.length ≤ limit → NoElse s rest →
      Accepts decl w (some s) rest)
    (hstops : ∀ kind, stops kind = true → kind = .symbol .rightBrace)
    (hend : ∀ t ∈ rest.head?, t.kind ≠ .keyword .else_ ∧ stops t.kind = true)
    (found : List Stmt) :
    Accepts (declarations stops decl bound found) w (found.reverse ++ ds) rest := by
  -- along the declarations, with the ones that are found already in general form
  induction ds generalizing w bound found with
  | nil =>
    cases hw
    obtain ⟨bound, rfl⟩ : ∃ m, bound = m + 1 := ⟨bound - 1, by simp at hbound; omega⟩
    intro line n es
    cases rest with
    | nil => simp [declarations, peek, Cursor.current, Token.atEnd, bind, EStateM.bind]
    | cons t rest =>
      have hstop := (hend t rfl).2
      simp [declarations, peek, Cursor.current, bind, EStateM.bind, hstop]
  | cons s ds ih =>
    cases hw with
    | @cons w₁ w₂ _ _ hs hds =>
      simp only [List.length_append] at hlength hbound
      obtain ⟨bound, rfl⟩ : ∃ m, bound = m + 1 := ⟨bound - 1, by omega⟩
      have hpos := List.length_pos_iff.mpr hs.ne_nil
      have hnoElse := noElse_of_declarations hds (fun t ht => (hend t ht).1) s
      have hfirst := hdecl hs (by omega) hnoElse
      have hothers : Accepts (declarations stops decl bound (s :: found)) w₂
          ((s :: found).reverse ++ ds) rest := ih hds (by omega) (by omega) (s :: found)
      obtain ⟨t, w', rfl, ht⟩ := Declaration.head hs
      -- a token that starts a declaration stops nothing
      have hgo : ¬ (t.kind = .endOfInput ∨ stops t.kind = true) := by
        rintro (hkind | hkind)
        · rw [hkind] at ht
          rcases ht with ht | ht <;> cases ht
        · rw [hstops _ hkind] at ht
          rcases ht with ht | ht <;> cases ht
      refine Runs.bind_nil peek_runs ?_
      rw [if_neg hgo, List.append_cons, ← List.reverse_cons]
      exact Runs.bind hfirst hothers

/-- An expression statement is what is left when no keyword and no brace comes first. -/
theorem statement_runs_expression {bound : Nat} {t' : Token} (he : Expression .assignment w e)
    (hlength : w.length ≤ bound + 1) (ht' : t'.kind = .symbol .semicolon) :
    Accepts (statement (bound + 1)) (w ++ [t']) (.expression e.line e) rest := by
  have hvalue : Accepts (expression (bound + 1)) w e ([t'] ++ rest) :=
    expression_runs he hlength (endsExpression_semicolon ht' rest)
  obtain ⟨t, w', rfl, ht⟩ := Expression.head he
  refine Runs.bind_nil peek_runs ?_
  split
  · next hkind => rw [hkind] at ht; cases ht
  · next hkind => rw [hkind] at ht; cases ht
  · next hkind => rw [hkind] at ht; cases ht
  · next hkind => rw [hkind] at ht; cases ht
  · exact Runs.bind hvalue (Runs.bind_right (semicolon_runs ht'))

/-- A statement is read, where no `else` of its own comes next. -/
theorem statement_runs {bound : Nat} (hw : Statement w s) (hlength : w.length ≤ bound)
    (hrest : NoElse s rest) : Accepts (statement bound) w s rest := by
  induction bound generalizing w s rest with
  | zero => exact absurd (List.length_eq_zero_iff.mp (by omega)) hw.ne_nil
  | succ bound ih =>
    cases hw with
    | expression he ht' =>
      simp only [List.length_append, List.length_cons, List.length_nil] at hlength
      exact statement_runs_expression he (by omega) ht'
    | @print t t' w e ht he ht' =>
      simp only [List.length_cons, List.length_append, List.length_nil] at hlength
      have hvalue : Accepts (expression (bound + 1)) w e ([t'] ++ rest) :=
        expression_runs he (by omega) (endsExpression_semicolon ht' rest)
      refine Runs.bind_nil peek_runs ?_
      simp only [ht]
      exact Runs.bind_cons advance_runs (Runs.bind hvalue (Runs.bind_right (semicolon_runs ht')))
    | @ifThen t w₁ w₂ e yes ht he hyes =>
      simp only [List.length_cons, List.length_append] at hlength
      -- this `if` ends open, so by assumption no `else` comes next
      have hnext := hrest rfl
      have hyesRuns : Accepts (statement bound) w₂ yes rest :=
        ih hyes (by omega) fun _ => hnext
      refine Runs.bind_nil peek_runs ?_
      simp only [ht]
      exact Runs.bind_cons advance_runs (Runs.bind (condition_runs he (by omega))
        ((Runs.bind_right hyesRuns).trans_nil (Runs.bind_right (take?_skips hnext))))
    | @ifElse t t' w₁ w₂ w₃ e yes no ht he hyes hclosed ht' hno =>
      simp only [List.length_cons, List.length_append] at hlength
      have hyesRuns : Accepts (statement bound) w₂ yes (t' :: w₃ ++ rest) :=
        ih hyes (by omega) (noElse_of_closed hclosed _)
      have hnoRuns : Accepts (statement bound) w₃ no rest := ih hno (by omega) hrest
      refine Runs.bind_nil peek_runs ?_
      simp only [ht]
      exact Runs.bind_cons advance_runs (Runs.bind (condition_runs he (by omega))
        (Runs.bind hyesRuns (Runs.bind_cons (take?_runs ht') (Runs.bind_right hnoRuns))))
    | @whileDo t w₁ w₂ e body ht he hbody =>
      simp only [List.length_cons, List.length_append] at hlength
      have hbodyRuns : Accepts (statement bound) w₂ body rest := ih hbody (by omega) hrest
      refine Runs.bind_nil peek_runs ?_
      simp only [ht]
      exact Runs.bind_cons advance_runs (Runs.bind (condition_runs he (by omega))
        (Runs.bind_right hbodyRuns))
    | @block t t' w body ht hbody ht' =>
      simp only [List.length_cons, List.length_append, List.length_nil] at hlength
      -- within a block, declarations stop at its closing brace only
      have hstops : ∀ kind : TokenKind, (kind == .symbol .rightBrace) = true →
          kind = .symbol .rightBrace := fun kind h => eq_of_beq h
      have hend : ∀ u ∈ ([t'] ++ rest).head?, u.kind ≠ .keyword .else_ ∧
          (u.kind == .symbol .rightBrace) = true := by
        intro u hu
        cases hu
        rw [ht']
        decide
      have hdecl : ∀ {w s rest}, Declaration w s → w.length ≤ bound → NoElse s rest →
          Accepts (declaration (bound + 1) (statement bound)) w (some s) rest :=
        fun hs hl hr => declaration_runs hs hl (Nat.le_succ _) hr ih
      have hbodyRuns : Accepts (declarations (· == .symbol .rightBrace)
          (declaration (bound + 1) (statement bound)) (bound + 1) []) w ([] ++ body) ([t'] ++ rest) :=
        declarations_runs hbody (by omega) (by omega) hdecl hstops hend []
      refine Runs.bind_nil peek_runs ?_
      simp only [ht]
      exact Runs.bind_cons advance_runs (Runs.bind hbodyRuns (Runs.bind_right (expect_runs ht')))

/-- A program is read to the end. -/
theorem program_runs {bound : Nat} {p : Scriptlet.Program} (hw : Grammar.Program w p)
    (hlength : w.length < bound) : Accepts (program bound) w p [] := by
  have hend : ∀ t ∈ ([] : List Token).head?, t.kind ≠ .keyword .else_ ∧ false = true := by
    intro t ht
    cases ht
  have hdecl : ∀ {w' s rest}, Declaration w' s → w'.length ≤ w.length → NoElse s rest →
      Accepts (declaration bound (statement bound)) w' (some s) rest := by
    intro w' s rest hs hl hr
    exact declaration_runs hs hl (by omega) hr fun hs hl hr => statement_runs hs (by omega) hr
  exact declarations_runs hw (Nat.le_refl _) hlength hdecl (fun _ h => by cases h) hend []

end Complete

end Parse

/-! ## The parser and the grammar -/

open Grammar

/-- The tokens of a list that are read: those in front of the first end mark. -/
def bodyOf (ts : List Token) : List Token :=
  ts.takeWhile (·.kind ≠ .endOfInput)

theorem length_bodyOf_le (ts : List Token) : (bodyOf ts).length ≤ ts.length :=
  (List.takeWhile_prefix _).length_le

/-- Where nothing but an end mark could come next, all tokens have been read. -/
theorem rest_eq_nil {ts rest : List Token} (hrest : rest <:+ bodyOf ts)
    (hend : ∀ t ∈ rest.head?, t.kind = .endOfInput) : rest = [] := by
  cases rest with
  | nil => rfl
  | cons t rest =>
    have hmem : t ∈ bodyOf ts := hrest.subset List.mem_cons_self
    have hne : t.kind ≠ .endOfInput := by simpa using List.mem_takeWhile_imp hmem
    exact absurd (hend t rfl) hne

/-- A program that is parsed without errors is derived by the tokens. -/
theorem program_of_parseProgram {ts : List Token} {p : Program}
    (h : parseProgram ts = { result := p, errors := [] }) : Grammar.Program (bodyOf ts) p := by
  unfold parseProgram at h
  cases hrun : Parse.program (ts.length + 1) (.ofTokens ts) with
  | error e c => simp [hrun, Cursor.record] at h
  | ok p' c =>
    simp only [hrun, Parsed.mk.injEq, Array.toList_eq_nil_iff] at h
    obtain ⟨rfl, herrors⟩ := h
    obtain ⟨w, ds, hrest, hds, hp, hend⟩ := (Parse.declarations_sound
      (Parse.declaration_sound (Parse.statement_sound _) _) _ _).gives hrun herrors
    have hlength : (Cursor.ofTokens ts).rest.length < ts.length + 1 :=
      Nat.lt_succ_of_le (length_bodyOf_le ts)
    have hnil : c.rest = [] := by
      refine rest_eq_nil ⟨w, hrest.symm⟩ fun t ht => ?_
      rcases hend hlength t ht with hkind | hkind
      · exact hkind
      · cases hkind
    have hbody : bodyOf ts = w := by
      have hbody : bodyOf ts = w ++ c.rest := hrest
      rw [hbody, hnil, List.append_nil]
    rw [hbody, hp]
    exact hds

/-- Tokens that derive a program are parsed to it without errors. -/
theorem parseProgram_of_program {ts : List Token} {p : Program}
    (h : Grammar.Program (bodyOf ts) p) : parseProgram ts = { result := p, errors := [] } := by
  have hruns := Parse.program_runs h (Nat.lt_succ_of_le (length_bodyOf_le ts))
    (Cursor.ofTokens ts).endLine 0 #[]
  rw [List.append_nil] at hruns
  have hcursor : Cursor.ofTokens ts = ⟨bodyOf ts, (Cursor.ofTokens ts).endLine, 0, #[]⟩ := rfl
  unfold parseProgram
  rw [hcursor, hruns]
  rfl

/-- Recursive descent accepts exactly the grammar and builds its trees: a list of tokens is parsed as
the program `p` without errors if and only if the tokens in front of its first end mark derive `p`.
In particular, no sequence of tokens derives two programs. -/
theorem descent_accepts_grammar :
    (∀ (ts : List Token) (p : Program),
      parseProgram ts = { result := p, errors := [] } ↔ Grammar.Program (bodyOf ts) p) ∧
    (∀ (w : List Token) (p₁ p₂ : Program),
      Grammar.Program w p₁ → Grammar.Program w p₂ → p₁ = p₂) := by
  refine ⟨fun ts p => ⟨fun h => ?_, fun h => ?_⟩, fun w p₁ p₂ h₁ h₂ => ?_⟩
  · exact program_of_parseProgram h
  · exact parseProgram_of_program h
  · exact (Parse.program_runs h₁ (Nat.lt_succ_self _)).unique
      (Parse.program_runs h₂ (Nat.lt_succ_self _))

/-- An `else` goes to the inner one of two open `if`s, and to no other. -/
theorem descent_accepts_dangling_else :
    let ts : List Token :=
      [⟨.keyword .if_, "if", 1, none⟩, ⟨.symbol .leftParen, "(", 1, none⟩,
        ⟨.identifier, "a", 1, none⟩, ⟨.symbol .rightParen, ")", 1, none⟩,
        ⟨.keyword .if_, "if", 2, none⟩, ⟨.symbol .leftParen, "(", 2, none⟩,
        ⟨.identifier, "b", 2, none⟩, ⟨.symbol .rightParen, ")", 2, none⟩,
        ⟨.identifier, "c", 2, none⟩, ⟨.symbol .semicolon, ";", 2, none⟩,
        ⟨.keyword .else_, "else", 3, none⟩, ⟨.identifier, "d", 3, none⟩,
        ⟨.symbol .semicolon, ";", 3, none⟩]
    let p : Program := [.ifThen 1 (.ident 1 "a") (.ifThen 2 (.ident 2 "b")
      (.expression 2 (.ident 2 "c")) (some (.expression 3 (.ident 3 "d")))) none]
    Grammar.Program ts p ∧ ∀ p', Grammar.Program ts p' → p' = p := by
  intro ts p
  have hp : Grammar.Program ts p := (descent_accepts_grammar.1 ts p).mp rfl
  exact ⟨hp, fun p' hp' => descent_accepts_grammar.2 ts p' p hp' hp⟩

end Scriptlet
