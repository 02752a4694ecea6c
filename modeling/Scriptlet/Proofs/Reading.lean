import Mathlib.Logic.Relation
import Scriptlet.Parse.Cursor
import Scriptlet.Proofs.Sequencing

/-! # What parsers do to a cursor

A parser can do two things to its cursor: read the next token, and note an error. Everything that is
kept by both is kept by every parser, however it ends; this is how the facts about cursors that have
moved are proved here.

Two notions build on it. `Sound p R` says what an error-free success of `p` tells about the tokens in
front of the cursor before and after it. `Runs p w q rest` says the converse: on the tokens `w` in
front of `rest`, the parser `p` goes on as `q` does behind them.
-/

namespace Scriptlet

open Relation

namespace Cursor

/-- The cursor passes over one token. -/
inductive Read : Cursor → Cursor → Prop where
  | mk (t : Token) (rest : List Token) (line n : Nat) (es : Array SyntaxError) :
      Read ⟨t :: rest, line, n, es⟩ ⟨rest, line, n + 1, es⟩

/-- The cursor passes over one token, or an error is noted. -/
inductive Step : Cursor → Cursor → Prop where
  | read {c c' : Cursor} (h : Read c c') : Step c c'
  | note (c : Cursor) (e : SyntaxError) : Step c (c.record e)

/-- Errors are only ever added behind those noted before. -/
theorem errors_grow {c c' : Cursor} (h : ReflTransGen Step c c') :
    c.errors.toList <+: c'.errors.toList := by
  -- on the steps, of which only notes change the errors
  induction h with
  | refl => exact List.prefix_refl _
  | tail _ hstep ih =>
    cases hstep with
    | read hread =>
      cases hread
      exact ih
    | note e =>
      refine ih.trans ?_
      simp [record]

/-- Reading alone notes no error. -/
theorem errors_of_reads {c c' : Cursor} (h : ReflTransGen Read c c') : c'.errors = c.errors := by
  induction h with
  | refl => rfl
  | tail _ hread ih =>
    cases hread
    exact ih

/-- If no error is noted on the whole way, none is noted on its first part. -/
theorem errors_eq_of_between {c c₁ c' : Cursor} (h₁ : ReflTransGen Step c c₁)
    (h₂ : ReflTransGen Step c₁ c') (h : c'.errors = c.errors) : c₁.errors = c.errors := by
  have hle₂ := (errors_grow h₂).length_le
  rw [h] at hle₂
  have heq := (errors_grow h₁).eq_of_length_le hle₂
  exact Array.toList_inj.mp heq.symm

end Cursor

namespace Parse

variable {α β : Type}

/-- The cursor that a parser leaves, whether it succeeds or fails. -/
def cursorAfter (p : Parse α) (c : Cursor) : Cursor :=
  match p c with
  | .ok _ c' => c'
  | .error _ c' => c'

theorem cursorAfter_ok {p : Parse α} {c c' : Cursor} {a : α} (h : p c = .ok a c') :
    p.cursorAfter c = c' := by
  rw [cursorAfter, h]

theorem cursorAfter_error {p : Parse α} {c c' : Cursor} {e : SyntaxError}
    (h : p c = .error e c') : p.cursorAfter c = c' := by
  rw [cursorAfter, h]

/-! ## Moving by steps -/

/-- However `p` ends, it has moved the cursor by steps of the kind `r`. -/
def Within (r : Cursor → Cursor → Prop) (p : Parse α) : Prop :=
  ∀ c, ReflTransGen r c (p.cursorAfter c)

section Within

variable {r : Cursor → Cursor → Prop}

/-- A parser that moves by some steps moves by more general ones. -/
theorem Within.mono {r' : Cursor → Cursor → Prop} {p : Parse α} (h : p.Within r)
    (hr : ∀ c c', r c c' → r' c c') : p.Within r' :=
  fun c => ReflTransGen.mono hr _ _ (h c)

/-- From one cursor on, only the steps of the first part from there matter. -/
theorem reaches_bind {p : Parse α} {f : α → Parse β} {c : Cursor}
    (hp : ReflTransGen r c (p.cursorAfter c)) (hf : ∀ a, (f a).Within r) :
    ReflTransGen r c ((p >>= f).cursorAfter c) := by
  cases h : p c with
  | ok a c' =>
    rw [cursorAfter_ok h] at hp
    have hfc := hf a c'
    rw [cursorAfter, EStateM.bind_of_ok h]
    exact hp.trans hfc
  -- a failure stays where it is, and what follows is not run
  | error e c' =>
    rw [cursorAfter_error h] at hp
    rw [cursorAfter_error (EStateM.bind_of_error h)]
    exact hp

/-- Parsers in sequence move by the steps of both. -/
theorem Within.bind {p : Parse α} {f : α → Parse β} (hp : p.Within r)
    (hf : ∀ a, (f a).Within r) : (p >>= f).Within r :=
  fun c => reaches_bind (hp c) hf

theorem Within.pure (a : α) : (Pure.pure a : Parse α).Within r :=
  fun _ => .refl

/-- A parser that is attempted moves as it does. -/
theorem Within.attempt {p : Parse α} (hp : p.Within r) : (attempt p).Within r := by
  intro c
  have hpc := hp c
  cases h : p c with
  | ok a c' =>
    rw [cursorAfter_ok h] at hpc
    simpa [cursorAfter, Parse.attempt, h] using hpc
  | error e c' =>
    rw [cursorAfter_error h] at hpc
    simpa [cursorAfter, Parse.attempt, h] using hpc

theorem peek_within : peek.Within r :=
  fun _ => .refl

theorem noExpression_within : (noExpression : Parse α).Within r :=
  fun _ => .refl

/-- Advancing reads a token, except at the end. -/
theorem advance_reads : advance.Within Cursor.Read := by
  rintro ⟨_ | ⟨t, rest⟩, line, n, es⟩
  · exact .refl
  · exact .single (.mk t rest line n es)

/-- A token is read if it is one of those looked for. -/
theorem takeIf_reads (f : TokenKind → Option α) : (takeIf f).Within Cursor.Read := by
  rintro ⟨_ | ⟨t, rest⟩, line, n, es⟩
  · exact .refl
  · cases h : f t.kind with
    | none => simpa [cursorAfter, takeIf, h] using .refl
    | some a => simpa [cursorAfter, takeIf, h] using .single (.mk t rest line n es)

/-- A token is read if it is of the kind looked for. -/
theorem take?_reads (kind : TokenKind) : (take? kind).Within Cursor.Read := by
  rintro ⟨_ | ⟨t, rest⟩, line, n, es⟩
  · exact .refl
  · by_cases h : t.kind = kind
    · simpa [cursorAfter, take?, h] using .single (.mk t rest line n es)
    · simpa [cursorAfter, take?, h] using .refl

/-- An expected token is read if it is there. -/
theorem expect_reads (kind : TokenKind) (error : String → Nat → SyntaxError) :
    (expect kind error).Within Cursor.Read := by
  rintro ⟨_ | ⟨t, rest⟩, line, n, es⟩
  · exact .refl
  · by_cases h : t.kind = kind
    · simpa [cursorAfter, expect, Cursor.current, h] using .single (.mk t rest line n es)
    · simpa [cursorAfter, expect, Cursor.current, h] using .refl

theorem record_within (e : SyntaxError) : (record e).Within Cursor.Step :=
  fun c => .single (.note c e)

end Within

/-- A parser that only reads moves by steps. -/
theorem Within.step {p : Parse α} (h : p.Within Cursor.Read) : p.Within Cursor.Step :=
  h.mono fun _ _ => .read

/-! ## What an error-free success tells -/

/-- When `p` succeeds and notes no error, the tokens in front of the cursor before it, its result and
the tokens in front of the cursor after it are related by `R`. -/
structure Sound (p : Parse α) (R : List Token → α → List Token → Prop) : Prop where
  within : p.Within Cursor.Step
  gives {c c' : Cursor} {a : α} (h : p c = .ok a c') (herrors : c'.errors = c.errors) :
    R c.rest a c'.rest

section Sound

variable {R R' : List Token → α → List Token → Prop} {T : List Token → β → List Token → Prop}

/-- What is known of the result may be weakened. -/
theorem Sound.mono {p : Parse α} (h : p.Sound R) (hR : ∀ ts a ts', R ts a ts' → R' ts a ts') :
    p.Sound R' :=
  ⟨h.within, fun hp herrors => hR _ _ _ (h.gives hp herrors)⟩

/-- What follows may use all that is known of the first part. -/
theorem Sound.bind {p : Parse α} {f : α → Parse β} (hp : p.Sound R)
    (hf : ∀ a, (f a).Sound fun ts b ts' => ∀ ts₀, R ts₀ a ts → T ts₀ b ts') :
    (p >>= f).Sound T := by
  refine ⟨hp.within.bind fun a => (hf a).within, ?_⟩
  intro c c'' b h herrors
  cases hpc : p c with
  | error e c' =>
    rw [EStateM.bind_of_error hpc] at h
    cases h
  | ok a c' =>
    rw [EStateM.bind_of_ok hpc] at h
    have hstep₁ := hp.within c
    have hstep₂ := (hf a).within c'
    rw [cursorAfter_ok hpc] at hstep₁
    rw [cursorAfter_ok h] at hstep₂
    -- no error was noted on the way either, as errors only accumulate
    have herrors₁ := Cursor.errors_eq_of_between hstep₁ hstep₂ herrors
    exact (hf a).gives h (herrors.trans herrors₁.symm) _ (hp.gives hpc herrors₁)

theorem Sound.pure {a : α} (h : ∀ ts, R ts a ts) : (Pure.pure a : Parse α).Sound R := by
  refine ⟨.pure a, ?_⟩
  intro c c' b hb _
  cases hb
  exact h c.rest

/-- A parser that is attempted and succeeds gives what it gives. -/
theorem Sound.attempt {p : Parse α} (hp : p.Sound R) :
    (attempt p).Sound fun ts o ts' => ∀ a, o = .ok a → R ts a ts' := by
  refine ⟨hp.within.attempt, ?_⟩
  intro c c' o h herrors a ho
  subst ho
  cases hpc : p c with
  | ok b c₁ =>
    simp only [Parse.attempt, hpc] at h
    cases h
    exact hp.gives hpc herrors
  | error e c₁ =>
    simp only [Parse.attempt, hpc] at h
    cases h

/-- The next token is looked at, or the end behind the last one. -/
theorem peek_sound :
    peek.Sound fun ts t ts' =>
      ts' = ts ∧ (ts = [] ∧ t.kind = .endOfInput ∨ ∃ rest, ts = t :: rest) := by
  refine ⟨peek_within, ?_⟩
  rintro ⟨_ | ⟨t, rest⟩, line, n, es⟩ c' u h _
  · cases h
    exact ⟨rfl, .inl ⟨rfl, rfl⟩⟩
  · cases h
    exact ⟨rfl, .inr ⟨rest, rfl⟩⟩

/-- Looking at the cursor reads nothing. -/
theorem get_sound : (get : Parse Cursor).Sound fun ts _ ts' => ts' = ts := by
  refine ⟨fun _ => .refl, ?_⟩
  intro c c' a h _
  cases h
  rfl

theorem advance_sound : advance.Sound fun ts _ ts' => ts' = ts.tail := by
  refine ⟨advance_reads.step, ?_⟩
  rintro ⟨_ | ⟨t, rest⟩, line, n, es⟩ c' u h _ <;> cases h <;> rfl

/-- What is taken was in front, and nothing was if it is not looked for. -/
theorem takeIf_sound (f : TokenKind → Option α) :
    (takeIf f).Sound fun ts o ts' => match o with
      | none => ts' = ts ∧ ∀ t ∈ ts.head?, f t.kind = none
      | some (a, line) => ∃ t, ts = t :: ts' ∧ f t.kind = some a ∧ t.line = line := by
  refine ⟨(takeIf_reads f).step, ?_⟩
  rintro ⟨_ | ⟨t, rest⟩, line, n, es⟩ c' o h _
  · cases h
    simp
  · cases hf : f t.kind with
    | none =>
      simp only [takeIf, hf] at h
      cases h
      simp [hf]
    | some a =>
      simp only [takeIf, hf] at h
      cases h
      exact ⟨t, rfl, hf, rfl⟩

/-- A token of the kind is taken, and nothing if there is none. -/
theorem take?_sound (kind : TokenKind) :
    (take? kind).Sound fun ts o ts' => match o with
      | none => ts' = ts ∧ ∀ t ∈ ts.head?, t.kind ≠ kind
      | some line => ∃ t, ts = t :: ts' ∧ t.kind = kind ∧ t.line = line := by
  refine ⟨(take?_reads kind).step, ?_⟩
  rintro ⟨_ | ⟨t, rest⟩, line, n, es⟩ c' o h _
  · cases h
    simp
  · by_cases hkind : t.kind = kind
    · simp only [take?, hkind, if_true] at h
      cases h
      exact ⟨t, rfl, hkind, rfl⟩
    · simp only [take?, hkind, if_false] at h
      cases h
      simpa using hkind

/-- A success has read a token of the kind. -/
theorem expect_sound (kind : TokenKind) (error : String → Nat → SyntaxError) :
    (expect kind error).Sound fun ts t ts' => ts = t :: ts' ∧ t.kind = kind := by
  refine ⟨(expect_reads kind error).step, ?_⟩
  rintro ⟨_ | ⟨t, rest⟩, line, n, es⟩ c' u h _
  · simp [expect] at h
  · by_cases hkind : t.kind = kind
    · simp only [expect, Cursor.current, List.head?_cons, Option.getD_some, hkind, ne_eq,
        List.cons_ne_nil, not_false_eq_true, and_self, if_true] at h
      cases h
      exact ⟨rfl, hkind⟩
    · simp [expect, Cursor.current, hkind] at h

/-- A parser that fails has nothing to be right about. -/
theorem noExpression_sound : (noExpression : Parse α).Sound R := by
  refine ⟨noExpression_within, ?_⟩
  intro c c' a h _
  cases h

/-- Behind a noted error nothing is error-free. -/
theorem record_sound {R : List Token → Unit → List Token → Prop} (e : SyntaxError) :
    (record e).Sound R := by
  refine ⟨record_within e, ?_⟩
  intro c c' a h herrors
  cases h
  have hsize := congrArg Array.size herrors
  simp [Cursor.record] at hsize

end Sound

/-! ## What a parser does on given tokens -/

/-- On the tokens `w` in front of `rest`, `p` goes on as `q` does behind them. -/
def Runs (p : Parse α) (w : List Token) (q : Parse α) (rest : List Token) : Prop :=
  ∀ line n es, p ⟨w ++ rest, line, n, es⟩ = q ⟨rest, line, n + w.length, es⟩

/-- On the tokens `w` in front of `rest`, `p` succeeds with `a` and stops behind them. -/
abbrev Accepts (p : Parse α) (w : List Token) (a : α) (rest : List Token) : Prop :=
  Runs p w (pure a) rest

section Runs

variable {w w₁ w₂ rest : List Token} {t : Token}

theorem Runs.nil (p : Parse α) : Runs p [] p rest :=
  fun _ _ _ => rfl

/-- What goes on over some tokens may go on over the next ones. -/
theorem Runs.trans {p q r : Parse α} (h₁ : Runs p w₁ q (w₂ ++ rest)) (h₂ : Runs q w₂ r rest) :
    Runs p (w₁ ++ w₂) r rest := by
  intro line n es
  rw [List.append_assoc, h₁, h₂, List.length_append, Nat.add_assoc]

/-- What follows reads nothing. -/
theorem Runs.trans_nil {p q r : Parse α} (h₁ : Runs p w q rest) (h₂ : Runs q [] r rest) :
    Runs p w r rest := by
  intro line n es
  rw [h₁]
  exact h₂ line (n + w.length) es

/-- A parser that accepts some tokens leaves the next ones to what follows it. -/
theorem Runs.bind {p : Parse α} {f : α → Parse β} {a : α} {q : Parse β}
    (h₁ : Accepts p w₁ a (w₂ ++ rest)) (h₂ : Runs (f a) w₂ q rest) :
    Runs (p >>= f) (w₁ ++ w₂) q rest := by
  intro line n es
  rw [List.append_assoc, EStateM.bind_of_ok (h₁ line n es), h₂, List.length_append, Nat.add_assoc]

/-- A parser that reads nothing first. -/
theorem Runs.bind_nil {p : Parse α} {f : α → Parse β} {a : α} {q : Parse β}
    (h₁ : Accepts p [] a (w ++ rest)) (h₂ : Runs (f a) w q rest) : Runs (p >>= f) w q rest :=
  @Runs.bind _ _ [] w rest p f a q h₁ h₂

/-- The first parser accepts one token. -/
theorem Runs.bind_cons {p : Parse α} {f : α → Parse β} {a : α} {q : Parse β}
    (h₁ : Accepts p [t] a (w ++ rest)) (h₂ : Runs (f a) w q rest) :
    Runs (p >>= f) (t :: w) q rest :=
  @Runs.bind _ _ [t] w rest p f a q h₁ h₂

/-- The first parser accepts all of the tokens. -/
theorem Runs.bind_right {p : Parse α} {f : α → Parse β} {a : α} (h : Accepts p w a rest) :
    Runs (p >>= f) w (f a) rest := by
  intro line n es
  exact EStateM.bind_of_ok (h line n es)

/-- A result that is changed is accepted with the same tokens. -/
theorem Runs.map {p : Parse α} {a : α} (f : α → β) (h : Accepts p w a rest) :
    Accepts (f <$> p) w (f a) rest := by
  rw [map_eq_pure_bind]
  exact Runs.bind_right h

theorem peek_runs : Accepts peek [] t (t :: w ++ rest) :=
  fun _ _ _ => rfl

theorem get_runs {f : Cursor → Parse β} {q : Parse β} (h : ∀ c, Runs (f c) w q rest) :
    Runs (get >>= f) w q rest :=
  fun line n es => h ⟨w ++ rest, line, n, es⟩ line n es

theorem advance_runs : Accepts advance [t] () rest :=
  fun _ _ _ => rfl

/-- A token that is looked for is taken. -/
theorem takeIf_runs {f : TokenKind → Option α} {a : α} (h : f t.kind = some a) :
    Accepts (takeIf f) [t] (some (a, t.line)) rest := by
  intro line n es
  simp [takeIf, h, pure, EStateM.pure, Cursor.advance]

/-- Nothing is taken if the next token is not looked for. -/
theorem takeIf_skips {f : TokenKind → Option α} (h : ∀ t ∈ rest.head?, f t.kind = none) :
    Accepts (takeIf f) [] none rest := by
  intro line n es
  cases rest with
  | nil => rfl
  | cons t rest => simp [takeIf, h t rfl, pure, EStateM.pure]

/-- A token of the kind is taken. -/
theorem take?_runs {kind : TokenKind} (h : t.kind = kind) :
    Accepts (take? kind) [t] (some t.line) rest := by
  intro line n es
  simp [take?, h, pure, EStateM.pure, Cursor.advance]

/-- Nothing is taken if the next token is of another kind. -/
theorem take?_skips {kind : TokenKind} (h : ∀ t ∈ rest.head?, t.kind ≠ kind) :
    Accepts (take? kind) [] none rest := by
  intro line n es
  cases rest with
  | nil => rfl
  | cons t rest => simp [take?, h t rfl, pure, EStateM.pure]

/-- What is accepted is accepted by an attempt. -/
theorem attempt_runs {p : Parse α} {a : α} (h : Accepts p w a rest) :
    Accepts (attempt p) w (.ok a) rest := by
  intro line n es
  rw [attempt, h]
  rfl

/-- An expected token that is there is accepted. -/
theorem expect_runs {kind : TokenKind} {error : String → Nat → SyntaxError} (h : t.kind = kind) :
    Accepts (expect kind error) [t] t rest := by
  intro line n es
  simp [expect, Cursor.current, h, pure, EStateM.pure, Cursor.advance]

/-- What a parser makes of given tokens is unique. -/
theorem Accepts.unique {p : Parse α} {a b : α} (ha : Accepts p w a rest)
    (hb : Accepts p w b rest) : a = b := by
  have h := (ha 0 0 #[]).symm.trans (hb 0 0 #[])
  cases h
  rfl

end Runs

end Parse

end Scriptlet
