import Scriptlet.Proofs.Lookahead

/-! # Targets that are no variables

That the target of an assignment is no variable is noted at its equals sign, but only when the assigned
value has been read. In this value there may be such assignments again, and these are noted first.

A value ends where a parenthesis around it is closed, or where the statement ends. So whether one equals
sign stands in the value of another one (`InValueOf`) can be told from the tokens between the two, by
counting the parentheses that are open (`openParens`).

Expressions note no other errors. However a parser of expressions ends, it has noted errors for equals
signs that it has passed over, in the order of these signs, except for assignments in the values of others
(`Parse.Confined`).

## Main statement

* `Parse.expression_confined`: which errors an expression notes, and in which order.
-/

namespace Scriptlet

open Relation

/-! ## Values of assignments -/

/-- An expression may go on with a token of this kind, which is neither a parenthesis nor the end of a
statement. -/
def TokenKind.isPlain (kind : TokenKind) : Bool :=
  kind != .symbol .leftParen && kind != .symbol .rightParen && kind != .symbol .semicolon &&
    !Parse.isBoundary kind

/-- How many parentheses are open behind some tokens, if `depth` of them are open in front. There is no
answer if the tokens lead out of an expression: past a parenthesis that closes none of these, or past the
end of a statement. -/
def openParens (depth : Nat) : List Token → Option Nat
  | [] => some depth
  | t :: rest =>
      if t.kind = .symbol .leftParen then openParens (depth + 1) rest
      else if t.kind = .symbol .rightParen then
        if depth = 0 then none else openParens (depth - 1) rest
      else if t.kind.isPlain then openParens depth rest
      else none

section OpenParens

variable {t : Token} {rest : List Token} {depth depth' : Nat}

theorem openParens_open (h : t.kind = .symbol .leftParen) :
    openParens depth (t :: rest) = openParens (depth + 1) rest := by
  rw [openParens, if_pos h]

theorem openParens_close (h : t.kind = .symbol .rightParen) :
    openParens (depth + 1) (t :: rest) = openParens depth rest := by
  have hopen : t.kind ≠ .symbol .leftParen := by
    rw [h]
    decide
  rw [openParens, if_neg hopen, if_pos h, if_neg (Nat.succ_ne_zero depth), Nat.add_sub_cancel]

theorem openParens_plain (h : t.kind.isPlain = true) :
    openParens depth (t :: rest) = openParens depth rest := by
  have hopen : t.kind ≠ .symbol .leftParen := by
    intro hkind
    rw [hkind] at h
    cases h
  have hclose : t.kind ≠ .symbol .rightParen := by
    intro hkind
    rw [hkind] at h
    cases h
  rw [openParens, if_neg hopen, if_neg hclose, if_pos h]

/-- Parentheses can be counted in two parts. -/
theorem openParens_append (depth : Nat) (front back : List Token) :
    openParens depth (front ++ back) = (openParens depth front).bind (openParens · back) := by
  induction front generalizing depth with
  | nil => rfl
  | cons t rest ih =>
    rw [List.cons_append, openParens, openParens]
    split
    · exact ih _
    split
    · split
      · rfl
      · exact ih _
    split
    · exact ih _
    · rfl

/-- Inside of more parentheses, more of them stay open. -/
theorem openParens_add {ts : List Token} (h : openParens depth ts = some depth') (more : Nat) :
    openParens (depth + more) ts = some (depth' + more) := by
  -- on the tokens; a parenthesis that can be closed can be closed with more of them open
  induction ts generalizing depth with
  | nil =>
    cases h
    rfl
  | cons t rest ih =>
    rw [openParens] at h ⊢
    split at h
    · next hopen =>
      rw [if_pos hopen, Nat.add_right_comm]
      exact ih h
    · next hopen =>
      rw [if_neg hopen]
      split at h
      · next hclose =>
        rw [if_pos hclose]
        split at h
        · cases h
        · next hdepth =>
          rw [if_neg (by omega), Nat.sub_add_comm (by omega)]
          exact ih h
      · next hclose =>
        rw [if_neg hclose]
        split at h
        · next hplain =>
          rw [if_pos hplain]
          exact ih h
        · cases h

end OpenParens

/-- Two errors are for invalid targets at equals signs among the tokens: `left` at a sign in front of that
of `right`, with the tokens `between` them. -/
def Signs (ts : List Token) (left : SyntaxError) (between : List Token) (right : SyntaxError) : Prop :=
  ∃ front t t' back, ts = front ++ t :: (between ++ t' :: back) ∧
    t.kind = .symbol .equal ∧ t'.kind = .symbol .equal ∧
    left = .invalidAssignment t.line ∧ right = .invalidAssignment t'.line

/-- The error `e` is for an invalid target in the value that is assigned where `e'` is: at an equals sign
behind that of `e'`, before any end of the statement and any parenthesis that closes a group around the
assignment. -/
def InValueOf (ts : List Token) (e e' : SyntaxError) : Prop :=
  ∃ between, Signs ts e' between e ∧ (openParens 0 between).isSome = true

/-- Signs among some tokens are among more tokens, with the same ones between them. -/
theorem Signs.extend {ts between : List Token} {left right : SyntaxError}
    (h : Signs ts left between right) (front back : List Token) :
    Signs (front ++ ts ++ back) left between right := by
  obtain ⟨front', t, t', back', rfl, hsigns⟩ := h
  exact ⟨front ++ front', t, t', back' ++ back, by simp, hsigns⟩

/-- A value stays one among more tokens. -/
theorem InValueOf.extend {ts : List Token} {e e' : SyntaxError} (h : InValueOf ts e e')
    (front back : List Token) : InValueOf (front ++ ts ++ back) e e' := by
  obtain ⟨between, hsigns, hbetween⟩ := h
  exact ⟨between, hsigns.extend front back, hbetween⟩

/-- Errors for invalid targets at equals signs among the tokens, in the order of these signs, except for
assignments in the values of others. -/
structure TargetErrors (ts : List Token) (es : List SyntaxError) : Prop where
  sign {e : SyntaxError} : e ∈ es →
    ∃ front t back, ts = front ++ t :: back ∧ t.kind = .symbol .equal ∧ e = .invalidAssignment t.line
  order : es.Pairwise fun e e' => (∃ between, Signs ts e between e') ∨ InValueOf ts e e'

namespace TargetErrors

variable {ts ts' : List Token} {es es' : List SyntaxError}

theorem nil (ts : List Token) : TargetErrors ts [] :=
  ⟨fun he => absurd he List.not_mem_nil, .nil⟩

/-- Errors for some tokens are errors for more tokens. -/
theorem extend (h : TargetErrors ts es) (front back : List Token) :
    TargetErrors (front ++ ts ++ back) es := by
  constructor
  · intro e he
    obtain ⟨front', t, back', rfl, hsign⟩ := h.sign he
    exact ⟨front ++ front', t, back' ++ back, by simp, hsign⟩
  · refine h.order.imp ?_
    rintro e e' (⟨between, hsigns⟩ | hvalue)
    · exact .inl ⟨between, hsigns.extend front back⟩
    · exact .inr (hvalue.extend front back)

/-- Errors for two rows of tokens, one behind the other, are errors for both. -/
theorem append (h : TargetErrors ts es) (h' : TargetErrors ts' es') :
    TargetErrors (ts ++ ts') (es ++ es') := by
  have hleft := h.extend [] ts'
  have hright := h'.extend ts []
  rw [List.nil_append] at hleft
  rw [List.append_nil] at hright
  constructor
  · intro e he
    rcases List.mem_append.mp he with he | he
    · exact hleft.sign he
    · exact hright.sign he
  · refine List.pairwise_append.mpr ⟨hleft.order, hright.order, ?_⟩
    intro e he e' he'
    -- The sign of one is among the first tokens, and that of the other one behind them.
    obtain ⟨front, t, back, rfl, ht, rfl⟩ := h.sign he
    obtain ⟨front', t', back', rfl, ht', rfl⟩ := h'.sign he'
    exact .inl ⟨back ++ front', front, t, t', back', by simp, ht, ht', rfl, rfl⟩

/-- An invalid target is noted behind those in the value. -/
theorem target {t : Token} {depth : Nat} (h : TargetErrors ts es) (ht : t.kind = .symbol .equal)
    (hdepth : openParens 0 ts = some depth) :
    TargetErrors (t :: ts) (es ++ [.invalidAssignment t.line]) := by
  have hvalue := h.extend [t] []
  rw [List.append_nil, List.singleton_append] at hvalue
  constructor
  · intro e he
    rcases List.mem_append.mp he with he | he
    · exact hvalue.sign he
    · exact ⟨[], t, ts, rfl, ht, List.mem_singleton.mp he⟩
  · refine List.pairwise_append.mpr ⟨hvalue.order, List.pairwise_singleton _ _, ?_⟩
    intro e he e' he'
    cases List.mem_singleton.mp he'
    obtain ⟨front, t', back, rfl, ht', rfl⟩ := h.sign he
    refine .inr ⟨front, ⟨[], t, t', back, rfl, ht, ht', rfl, rfl⟩, ?_⟩
    -- If all of the value does not lead out of it, neither does what stands in front of the sign.
    rw [openParens_append] at hdepth
    cases hfront : openParens 0 front with
    | some _ => rfl
    | none =>
      rw [hfront] at hdepth
      cases hdepth

end TargetErrors

/-! ## What is read and noted -/

namespace Cursor

variable {read read' : List Token} {new new' : List SyntaxError} {depth : Nat} {c c₁ c' : Cursor}

/-- From `c` to `c'` the tokens `read` are passed over, and the errors `new` are noted. -/
structure Passes (read : List Token) (new : List SyntaxError) (c c' : Cursor) : Prop where
  rest_eq : c.rest = read ++ c'.rest
  errors_eq : c'.errors.toList = c.errors.toList ++ new
  endLine_eq : c'.endLine = c.endLine

namespace Passes

theorem refl (c : Cursor) : Passes [] [] c c :=
  ⟨rfl, (List.append_nil _).symm, rfl⟩

/-- One way behind another passes over the tokens of both. -/
theorem trans (h : Passes read new c c₁) (h' : Passes read' new' c₁ c') :
    Passes (read ++ read') (new ++ new') c c' := by
  refine ⟨?_, ?_, h'.endLine_eq.trans h.endLine_eq⟩
  · rw [h.rest_eq, h'.rest_eq, List.append_assoc]
  · rw [h'.errors_eq, h.errors_eq, List.append_assoc]

/-- Reading the next token passes over it. -/
theorem token {t : Token} {rest : List Token} (h : c.rest = t :: rest) :
    Passes [t] [] c c.advance := by
  obtain ⟨_, line, n, es⟩ := c
  cases h
  exact ⟨rfl, (List.append_nil _).symm, rfl⟩

theorem note (e : SyntaxError) (c : Cursor) : Passes [] [e] c (c.record e) :=
  ⟨rfl, by simp [record], rfl⟩

/-- Where tokens are only read, nothing is noted. -/
theorem of_reads (h : ReflTransGen Read c c') : ∃ read, Passes read [] c c' := by
  induction h with
  | refl => exact ⟨[], refl c⟩
  | tail _ hread ih =>
    obtain ⟨read, hpasses⟩ := ih
    cases hread with
    | mk t rest line n es =>
      have htoken : Passes [t] [] ⟨t :: rest, line, n, es⟩ ⟨rest, line, n + 1, es⟩ := token rfl
      exact ⟨read ++ [t], hpasses.trans htoken⟩

end Passes

/-- On its way the cursor does not lead out of an expression, in which `depth` parentheses are open at
the end; all that is noted are invalid targets. -/
structure Confined (read : List Token) (new : List SyntaxError) (depth : Nat) (c c' : Cursor) :
    Prop extends Passes read new c c' where
  depth_eq : openParens 0 read = some depth
  targets : TargetErrors read new

namespace Confined

theorem refl (c : Cursor) : Confined [] [] 0 c c :=
  ⟨.refl c, rfl, .nil []⟩

/-- A way with all parentheses closed may be followed by another one. -/
theorem trans (h : Confined read new 0 c c₁) (h' : Confined read' new' depth c₁ c') :
    Confined (read ++ read') (new ++ new') depth c c' := by
  refine ⟨h.toPasses.trans h'.toPasses, ?_, h.targets.append h'.targets⟩
  rw [openParens_append, h.depth_eq]
  exact h'.depth_eq

/-- A token that is no parenthesis opens and closes none. -/
theorem token {t : Token} {rest : List Token} (h : c.rest = t :: rest)
    (hplain : t.kind.isPlain = true) : Confined [t] [] 0 c c.advance :=
  ⟨.token h, openParens_plain hplain, .nil _⟩

/-- Behind an equals sign and a value, the target is found to be invalid. -/
theorem target {t : Token} {rest : List Token} (h : c.rest = t :: rest)
    (ht : t.kind = .symbol .equal) (hvalue : Confined read new 0 c.advance c') :
    Confined (t :: read) (new ++ [.invalidAssignment t.line]) 0 c
      (c'.record (.invalidAssignment t.line)) := by
  have hpasses := ((Passes.token h).trans hvalue.toPasses).trans
    (.note (.invalidAssignment t.line) c')
  rw [List.append_nil] at hpasses
  refine ⟨hpasses, ?_, hvalue.targets.target ht hvalue.depth_eq⟩
  rw [openParens_plain (by rw [ht]; rfl)]
  exact hvalue.depth_eq

/-- Behind an opening parenthesis, one more is open at the end. -/
theorem opening {t : Token} {rest : List Token} (h : c.rest = t :: rest)
    (ht : t.kind = .symbol .leftParen) (hinner : Confined read new depth c.advance c') :
    Confined (t :: read) new (depth + 1) c c' := by
  refine ⟨(Passes.token h).trans hinner.toPasses, ?_, ?_⟩
  · rw [openParens_open ht]
    exact openParens_add hinner.depth_eq 1
  · exact (TargetErrors.nil [t]).append hinner.targets

/-- A closing parenthesis closes the one that is open. -/
theorem closing {t : Token} {rest : List Token} (hinner : Confined read new 1 c c₁)
    (h : c₁.rest = t :: rest) (ht : t.kind = .symbol .rightParen) :
    Confined (read ++ [t]) new 0 c c₁.advance := by
  have hpasses := hinner.toPasses.trans (.token h)
  have htargets := hinner.targets.append (.nil [t])
  rw [List.append_nil] at hpasses htargets
  refine ⟨hpasses, ?_, htargets⟩
  rw [openParens_append, hinner.depth_eq]
  exact openParens_close ht

end Confined

end Cursor

/-! ## Expressions -/

namespace Parse

variable {α β : Type} {p : Parse α} {f : α → Parse β}

/-- The parser stays in an expression. If it succeeds, it has closed all parentheses that it has opened.
If it fails, it fails on the line of the next token. -/
structure Confined (p : Parse α) : Prop where
  ok {c c' : Cursor} {a : α} (h : p c = .ok a c') : ∃ read new, Cursor.Confined read new 0 c c'
  error {c c' : Cursor} {e : SyntaxError} (h : p c = .error e c') :
    e.line = c'.current.line ∧ ∃ read new depth, Cursor.Confined read new depth c c'

/-- A parser that reads nothing stays where it is. -/
theorem Confined.pure (a : α) : (Pure.pure a : Parse α).Confined := by
  constructor
  · intro c c' b h
    cases h
    exact ⟨[], [], .refl c⟩
  · intro c c' e h
    cases h

/-- Parsers in sequence stay in the expression. -/
theorem Confined.bind (hp : p.Confined) (hf : ∀ a, (f a).Confined) : (p >>= f).Confined := by
  constructor
  · intro c c' b h
    obtain ⟨a, c₁, hfirst, hsecond⟩ := EStateM.bind_eq_ok h
    obtain ⟨read, new, hread⟩ := hp.ok hfirst
    obtain ⟨read', new', hread'⟩ := (hf a).ok hsecond
    exact ⟨_, _, hread.trans hread'⟩
  · intro c c' e h
    rcases EStateM.bind_eq_error h with hfirst | ⟨a, c₁, hfirst, hsecond⟩
    · exact hp.error hfirst
    · obtain ⟨read, new, hread⟩ := hp.ok hfirst
      obtain ⟨hline, read', new', depth, hread'⟩ := (hf a).error hsecond
      exact ⟨hline, _, _, depth, hread.trans hread'⟩

/-- The failure at a token that begins no expression is on its line. -/
theorem noExpression_confined : (noExpression : Parse α).Confined := by
  constructor
  · intro c c' a h
    cases h
  · intro c c' e h
    cases h
    exact ⟨rfl, [], [], 0, .refl c⟩

/-- The parser of one token stays in the expression, if it looks for no parenthesis and no semicolon. -/
theorem takeIf_confined {g : TokenKind → Option α}
    (hg : ∀ kind a, g kind = some a → kind.isPlain = true) : (takeIf g).Confined := by
  constructor
  · rintro ⟨_ | ⟨t, rest⟩, line, n, es⟩ c' a h
    · cases h
      exact ⟨[], [], .refl _⟩
    · cases hkind : g t.kind with
      | none =>
        simp only [takeIf, hkind] at h
        cases h
        exact ⟨[], [], .refl _⟩
      | some b =>
        simp only [takeIf, hkind] at h
        cases h
        exact ⟨[t], [], .token rfl (hg _ _ hkind)⟩
  -- it does not fail: without such a token, nothing is read
  · rintro ⟨_ | ⟨t, rest⟩, line, n, es⟩ c' e h
    · cases h
    · cases hkind : g t.kind <;> simp only [takeIf, hkind] at h <;> cases h

/-- Prefix operators are such tokens. -/
theorem unaryOp_confined : (takeIf UnaryOp.ofToken?).Confined := by
  apply takeIf_confined
  intro kind op h
  unfold UnaryOp.ofToken? at h
  split at h <;> cases h <;> rfl

theorem connective_confined (level : Precedence) :
    (takeIf (Connective.ofLevel? level)).Confined := by
  apply takeIf_confined
  intro kind op h
  obtain ⟨h, -⟩ := Option.filter_eq_some_iff.mp h
  unfold Connective.ofToken? at h
  cases hbinary : BinaryOp.ofToken? kind with
  | some op =>
    unfold BinaryOp.ofToken? at hbinary
    split at hbinary <;> cases hbinary <;> rfl
  | none =>
    simp only [hbinary, Option.map_eq_some_iff] at h
    obtain ⟨op, hlogical, -⟩ := h
    unfold LogicalOp.ofToken? at hlogical
    split at hlogical <;> cases hlogical <;> rfl

theorem compositional_confined : Compositional fun _ p => p.Confined where
  of_pure := Confined.pure
  of_bind := Confined.bind
  of_unaryOp := unaryOp_confined
  of_connective := connective_confined

/-- A token is taken if it is of the kind. -/
theorem take?_cases (kind : TokenKind) (c : Cursor) :
    take? kind c = .ok none c ∨
      ∃ t rest, c.rest = t :: rest ∧ t.kind = kind ∧ take? kind c = .ok (some t.line) c.advance := by
  obtain ⟨_ | ⟨t, rest⟩, line, n, es⟩ := c
  · exact .inl rfl
  · by_cases hkind : t.kind = kind
    · exact .inr ⟨t, rest, rfl, hkind, by simp [take?, hkind]⟩
    · exact .inl (by simp [take?, hkind])

/-- An expected token is read, or the error names the token that stands there. -/
theorem expect_cases (kind : TokenKind) (error : String → Nat → SyntaxError) (c : Cursor) :
    expect kind error c = .error (error c.current.describe c.current.line) c ∨
      ∃ t rest, c.rest = t :: rest ∧ t.kind = kind ∧ expect kind error c = .ok t c.advance := by
  obtain ⟨_ | ⟨t, rest⟩, line, n, es⟩ := c
  · exact .inl (by simp [expect])
  · by_cases hkind : t.kind = kind
    · exact .inr ⟨t, rest, rfl, hkind, by simp [expect, Cursor.current, hkind]⟩
    · exact .inl (by simp [expect, Cursor.current, hkind])

variable {nested target : Parse Expr}

/-- In front of anything but the end, the next token is the first of those that are left. -/
theorem exists_rest_eq {c : Cursor} (h : c.current.kind ≠ .endOfInput) :
    ∃ rest, c.rest = c.current :: rest := by
  obtain ⟨_ | ⟨t, rest⟩, line, n, es⟩ := c
  · exact absurd rfl h
  · exact ⟨rest, rfl⟩

/-- A token that is an expression is neither a parenthesis nor the end. -/
theorem isPlain_of_ofToken? {t : Token} {e : Expr} (h : Expr.ofToken? t = some e) :
    t.kind ≠ .endOfInput ∧ t.kind.isPlain = true := by
  cases hkind : t.kind with
  | symbol s => simp [Expr.ofToken?, hkind] at h
  | keyword k => cases k <;> simp [Expr.ofToken?, hkind] at h <;> decide
  | identifier | string | number => decide
  | endOfInput => simp [Expr.ofToken?, hkind] at h

/-- A primary expression is what the next token stands for, or a group that begins with it. -/
theorem primary_cases (nested : Parse Expr) (c : Cursor) :
    (∃ e, Expr.ofToken? c.current = some e ∧ primary nested c = .ok e c.advance) ∨
      (c.current.kind = .symbol .leftParen ∧
        primary nested c = (do
          let inner ← nested
          let _ ← closeGroup
          return .group c.current.line inner : Parse Expr) c.advance) ∨
      primary nested c = noExpression c := by
  have hpeek : peek c = .ok c.current c := rfl
  rw [primary, EStateM.bind_of_ok hpeek]
  cases he : Expr.ofToken? c.current with
  | some e => exact .inl ⟨e, rfl, rfl⟩
  | none =>
    by_cases hopen : c.current.kind = .symbol .leftParen
    · refine .inr (.inl ⟨hopen, ?_⟩)
      simp only [if_pos hopen]
      rfl
    · refine .inr (.inr ?_)
      simp only [if_neg hopen]

/-- A primary expression closes the parenthesis that it opens. -/
theorem primary_confined (h : nested.Confined) : (primary nested).Confined := by
  constructor
  · intro c c' a hp
    -- an atom, a group, or a token that begins neither
    rcases primary_cases nested c with ⟨e, he, heq⟩ | ⟨hopen, heq⟩ | heq
    · obtain ⟨hend, hplain⟩ := isPlain_of_ofToken? he
      obtain ⟨rest, hrest⟩ := exists_rest_eq hend
      cases heq.symm.trans hp
      exact ⟨_, _, .token hrest hplain⟩
    · obtain ⟨rest, hrest⟩ := exists_rest_eq (c := c) (by rw [hopen]; decide)
      obtain ⟨inner, c₁, hinner, hp⟩ := EStateM.bind_eq_ok (heq.symm.trans hp)
      obtain ⟨t, c₂, hclose, hp⟩ := EStateM.bind_eq_ok hp
      obtain ⟨read, new, hread⟩ := h.ok hinner
      cases hp
      rcases expect_cases (.symbol .rightParen) (.missingClosingParen .grouping) c₁ with
        herror | ⟨u, rest', hrest', hu, hok⟩
      · cases herror.symm.trans hclose
      · cases hok.symm.trans hclose
        exact ⟨_, _, (hread.opening hrest hopen).closing hrest' hu⟩
    · cases heq.symm.trans hp
  · intro c c' error hp
    rcases primary_cases nested c with ⟨e, he, heq⟩ | ⟨hopen, heq⟩ | heq
    · cases heq.symm.trans hp
    · obtain ⟨rest, hrest⟩ := exists_rest_eq (c := c) (by rw [hopen]; decide)
      rcases EStateM.bind_eq_error (heq.symm.trans hp) with hinner | ⟨inner, c₁, hinner, hp⟩
      · obtain ⟨hline, read, new, depth, hread⟩ := h.error hinner
        exact ⟨hline, _, _, _, hread.opening hrest hopen⟩
      obtain ⟨read, new, hread⟩ := h.ok hinner
      rcases EStateM.bind_eq_error hp with hclose | ⟨_, _, -, hp⟩
      · -- The group is not closed: its parenthesis stays open where the parser fails.
        rcases expect_cases (.symbol .rightParen) (.missingClosingParen .grouping) c₁ with
          herror | ⟨u, rest', hrest', hu, hok⟩
        · cases herror.symm.trans hclose
          exact ⟨rfl, _, _, _, hread.opening hrest hopen⟩
        · cases hok.symm.trans hclose
      · cases hp
    · exact noExpression_confined.error (heq.symm.trans hp)

/-- An assignment notes an invalid target behind the errors of its value. -/
theorem assignment_confined (hnested : nested.Confined) (htarget : target.Confined) :
    (assignment nested target).Confined := by
  refine htarget.bind fun e => ?_
  constructor
  · intro c c' a h
    rcases take?_cases (.symbol .equal) c with hnone | ⟨t, rest, hrest, ht, hsome⟩
    · rw [EStateM.bind_of_ok hnone] at h
      exact (Confined.pure e).ok h
    · rw [EStateM.bind_of_ok hsome] at h
      obtain ⟨value, c₁, hvalue, h⟩ := EStateM.bind_eq_ok h
      obtain ⟨read, new, hread⟩ := hnested.ok hvalue
      split at h
      -- the target is none, and is noted when the value has been read
      · cases h
        exact ⟨_, _, (Cursor.Confined.token hrest (by rw [ht]; rfl)).trans hread⟩
      · cases h
        exact ⟨_, _, .target hrest ht hread⟩
  · intro c c' error h
    rcases take?_cases (.symbol .equal) c with hnone | ⟨t, rest, hrest, ht, hsome⟩
    · rw [EStateM.bind_of_ok hnone] at h
      cases h
    · rw [EStateM.bind_of_ok hsome] at h
      rcases EStateM.bind_eq_error h with hvalue | ⟨value, c₁, -, h⟩
      · obtain ⟨hline, read, new, depth, hread⟩ := hnested.error hvalue
        exact ⟨hline, _, _, depth, (Cursor.Confined.token hrest (by rw [ht]; rfl)).trans hread⟩
      · split at h <;> cases h

/-- The parser of expressions stays in the expression. -/
theorem expression_confined (bound : Nat) : (expression bound).Confined := by
  induction bound with
  | zero => exact noExpression_confined
  | succ bound ih =>
    have hoperand := unary_pervaded compositional_confined (primary_confined ih) (bound + 1)
    exact assignment_confined ih (levels_pervaded compositional_confined hoperand (bound + 1) _)

end Parse

end Scriptlet
