import Scriptlet.Parse.Expression
import Scriptlet.Proofs.Grammar
import Scriptlet.Proofs.Reading

/-! # Expressions by levels and the grammar

The parser with one level per precedence reads exactly the expressions of the grammar. What it reads
without an error is a derivation (`expression_sound`), and it reads every derivation behind which
nothing continues the expression (`expression_runs`).
-/

namespace Scriptlet.Parse

open Grammar

/-- The tokens read derive the result on a level. -/
def Derived (level : Precedence) (ts : List Token) (e : Expr) (ts' : List Token) : Prop :=
  ∃ w, ts = w ++ ts' ∧ Expression level w e

/-- `ls` are the levels of connectives from `level` on, the loosest first. -/
inductive Ladder : Precedence → List Precedence → Prop where
  | nil : Ladder .unary []
  | cons {level : Precedence} {ls : List Precedence} (hlevel : level ≠ .primary)
      (h : Ladder level.next ls) : Ladder level (level :: ls)

/-- The parser descends through all levels of connectives. -/
theorem ladder_connectiveLevels : Ladder .or Precedence.connectiveLevels := by
  refine .cons ?_ (.cons ?_ (.cons ?_ (.cons ?_ (.cons ?_ (.cons ?_ .nil))))) <;> decide

/-- No level of connectives is tighter than that of the unary operators. -/
theorem Ladder.rank_le {level : Precedence} {ls : List Precedence} (h : Ladder level ls) :
    level.rank ≤ 8 := by
  induction h with
  | nil => decide
  | cons hlevel _ ih =>
    have hnext := rank_next hlevel
    omega

/-! ## Soundness -/

section Sound

variable {nested operand target : Parse Expr}

/-- What closes a group is a closing parenthesis. -/
theorem closeGroup_sound :
    closeGroup.Sound fun ts t ts' => ts = t :: ts' ∧ t.kind = .symbol .rightParen :=
  expect_sound _ _

/-- What is read as a primary expression derives on its level, if nested expressions do. -/
theorem primary_sound (h : nested.Sound (Derived .assignment)) :
    (primary nested).Sound (Derived .primary) := by
  refine peek_sound.bind fun t => ?_
  split
  · next e he =>
    refine advance_sound.bind fun _ => .pure ?_
    rintro _ _ rfl _ ⟨rfl, ⟨-, ht⟩ | ⟨rest, rfl⟩⟩
    -- the end of the input is no expression
    · simp [Expr.ofToken?, ht] at he
    · exact ⟨[t], rfl, .atom (atom_iff.mpr he)⟩
  · split
    · next hopen =>
      refine advance_sound.bind fun _ => h.bind fun inner => closeGroup_sound.bind fun t' => .pure ?_
      rintro _ _ ⟨rfl, hclose⟩ _ ⟨w, rfl, hw⟩ _ htail _ ⟨rfl, ⟨-, ht⟩ | ⟨rest, rfl⟩⟩
      · rw [hopen] at ht
        cases ht
      · refine ⟨t :: (w ++ [t']), ?_, .group hopen hw hclose⟩
        simp only [List.tail_cons] at htail
        simp [← htail]
    · exact noExpression_sound

/-- What is read as a unary expression derives on its level. -/
theorem unary_sound (h : operand.Sound (Derived .primary)) (bound : Nat) :
    (unary operand bound).Sound (Derived .unary) := by
  have hloose : operand.Sound (Derived .unary) :=
    h.mono fun ts e ts' ⟨w, hw, he⟩ => ⟨w, hw, .tighter (by decide) he⟩
  induction bound with
  | zero => exact hloose
  | succ bound ih =>
    refine (takeIf_sound _).bind fun o => ?_
    split
    · next op line =>
      refine ih.bind fun e => .pure ?_
      rintro _ _ ⟨w, rfl, he⟩ _ ⟨t, rfl, hop, rfl⟩
      exact ⟨t :: w, rfl, .unary (prefixes_iff.mpr hop) he⟩
    · refine hloose.mono ?_
      rintro _ e _ he _ ⟨rfl, -⟩
      exact he

/-- What is read behind `left` extends its derivation. -/
theorem chain_sound {level : Precedence} (h : operand.Sound (Derived level.next)) (bound : Nat)
    (left : Expr) :
    (chain level operand bound left).Sound fun ts e ts' =>
      ∀ w₀, Expression level w₀ left → ∃ w, ts = w ++ ts' ∧ Expression level (w₀ ++ w) e := by
  -- on the rounds: each joins one more operand on the right to what was read on the level so far
  induction bound generalizing left with
  | zero =>
    refine .pure fun ts w₀ hw₀ => ⟨[], rfl, ?_⟩
    rwa [List.append_nil]
  | succ bound ih =>
    refine (takeIf_sound _).bind fun o => ?_
    split
    · next op line =>
      refine h.bind fun right => (ih (op.join line left right)).mono ?_
      rintro _ e _ he _ ⟨w₂, rfl, hright⟩ _ ⟨t, rfl, hop, rfl⟩ w₀ hw₀
      obtain ⟨w, rfl, hw⟩ := he _ (.join hw₀ (ofLevel?_eq_some.mp hop) hright)
      refine ⟨t :: (w₂ ++ w), by simp, ?_⟩
      simpa using hw
    · refine .pure ?_
      rintro _ _ ⟨rfl, -⟩ w₀ hw₀
      refine ⟨[], rfl, ?_⟩
      rwa [List.append_nil]

/-- What is read through the levels of connectives derives on the loosest of them. -/
theorem levels_sound {level : Precedence} {ls : List Precedence} (hls : Ladder level ls)
    (h : operand.Sound (Derived .unary)) (bound : Nat) :
    (levels bound operand ls).Sound (Derived level) := by
  induction hls with
  | nil => exact h
  | cons hlevel _ ih =>
    refine ih.bind fun left => (chain_sound ih bound left).mono ?_
    rintro _ e _ he _ ⟨w₀, rfl, hleft⟩
    obtain ⟨w, rfl, hw⟩ := he w₀ (.tighter hlevel hleft)
    exact ⟨w₀ ++ w, by simp, hw⟩

/-- What is read as an assignment derives as one. -/
theorem assignment_sound (hnested : nested.Sound (Derived .assignment))
    (htarget : target.Sound (Derived .or)) :
    (assignment nested target).Sound (Derived .assignment) := by
  refine htarget.bind fun e => (take?_sound _).bind fun o => ?_
  split
  · refine .pure ?_
    rintro _ _ ⟨rfl, -⟩ _ ⟨w, rfl, he⟩
    exact ⟨w, rfl, .tighter (by decide) he⟩
  · next line =>
    refine hnested.bind fun value => ?_
    split
    · refine .pure ?_
      rintro _ _ ⟨w, rfl, hvalue⟩ _ ⟨eq, rfl, heq, rfl⟩ _ ⟨w₁, rfl, he⟩
      obtain ⟨t, rfl, ht, rfl, rfl⟩ := he.of_ident
      exact ⟨t :: eq :: w, rfl, .assign ht heq hvalue⟩
    · -- a target that is no variable is noted as an error
      exact (record_sound (R := fun _ _ _ => False) _).bind fun _ => .pure fun _ _ h => h.elim

/-- What is read as an expression derives as one. -/
theorem expression_sound (bound : Nat) : (expression bound).Sound (Derived .assignment) := by
  induction bound with
  | zero => exact noExpression_sound
  | succ bound ih =>
    exact assignment_sound ih
      (levels_sound ladder_connectiveLevels (unary_sound (primary_sound ih) _) _)

end Sound

/-! ## Completeness -/

section Complete

variable {nested operand : Parse Expr} {w rest : List Token} {e : Expr}

/-- A token that is an expression is no prefix operator. -/
theorem Atom.ofToken?_prefix_eq_none {t : Token} (h : Atom t e) :
    UnaryOp.ofToken? t.kind = none := by
  cases h with
  | number ht | string ht | true_ ht | false_ ht | nil_ ht | ident ht =>
    rw [ht]
    rfl

/-- A primary expression starts with no unary operator. -/
theorem head_not_unary (h : Expression .primary w e) :
    ∀ t ∈ (w ++ rest).head?, UnaryOp.ofToken? t.kind = none := by
  intro t ht
  cases h with
  | tighter hlevel => exact absurd rfl hlevel
  | join _ hop => cases hop
  | atom hatom =>
    cases ht
    exact Atom.ofToken?_prefix_eq_none hatom
  | group hopen =>
    cases ht
    rw [hopen]
    rfl

/-- A primary expression is read, if nested expressions are. -/
theorem primary_runs {bound : Nat} (hw : Expression .primary w e) (hlength : w.length ≤ bound + 1)
    (hnested : ∀ {w e rest}, Expression .assignment w e → w.length ≤ bound → EndsExpression rest →
      Accepts nested w e rest) : Accepts (primary nested) w e rest := by
  cases hw with
  | tighter hlevel => exact absurd rfl hlevel
  | join _ hop => cases hop
  | @atom t e hatom =>
    refine Runs.bind_nil peek_runs ?_
    rw [atom_iff.mp hatom]
    exact Runs.bind_right advance_runs
  | @group t t' w e hopen he hclose =>
    have hnone : Expr.ofToken? t = none := by simp [Expr.ofToken?, hopen]
    simp only [List.length_cons, List.length_append] at hlength
    have hinner : Accepts nested w e ([t'] ++ rest) :=
      hnested he (by omega) (endsExpression_rightParen hclose rest)
    refine Runs.bind_nil peek_runs ?_
    simp only [hnone, hopen, if_true]
    refine Runs.bind_cons advance_runs ?_
    exact Runs.bind hinner (Runs.bind_right (expect_runs hclose))

/-- `bound` is how many operators can be read, `limit` how long an operand can be. -/
theorem unary_runs {bound limit : Nat} (hw : Expression .unary w e) (hlength : w.length ≤ bound)
    (hbound : bound ≤ limit)
    (hoperand : ∀ {w e}, Expression .primary w e → w.length ≤ limit → Accepts operand w e rest) :
    Accepts (unary operand bound) w e rest := by
  induction bound generalizing w e with
  | zero => exact absurd (List.length_eq_zero_iff.mp (by omega)) hw.ne_nil
  | succ bound ih =>
    cases hw with
    | join _ hop => cases hop
    | tighter _ he =>
      have hskip : Accepts (takeIf UnaryOp.ofToken?) [] none (w ++ rest) :=
        takeIf_skips (head_not_unary he)
      exact Runs.bind_nil hskip (hoperand he (by omega))
    | @unary t op w e hop he =>
      have hinner : Accepts (unary operand bound) w e rest :=
        ih he (by simpa using hlength) (by omega)
      exact Runs.bind_cons (takeIf_runs (prefixes_iff.mp hop)) (Runs.bind_right hinner)

/-- No connective is read where the level is closed. -/
theorem takeIf_ofLevel?_skips {level : Precedence} (h : Closes level rest) :
    Accepts (takeIf (Connective.ofLevel? level)) [] none rest := by
  refine takeIf_skips fun t ht => ?_
  cases hop : Connective.ofLevel? level t.kind with
  | none => rfl
  | some op =>
    have hle : level ≤ level := Nat.le_refl _
    exact absurd hle (h t ht _ _ (ofLevel?_eq_some.mp hop))

/-- Where no connective of its level comes next, a chain ends. -/
theorem chain_runs_nil {level : Precedence} {bound : Nat} (h : Closes level rest) (left : Expr) :
    Accepts (chain level operand bound left) [] left rest := by
  cases bound with
  | zero => exact .nil _
  | succ bound => exact Runs.bind_nil (takeIf_ofLevel?_skips h) (.nil _)

/-- Reading a derivation on a level of connectives leads into the chain of that level, with the
derived expression as its left part. The induction follows the left operands; each connective costs
the chain one of its rounds. -/
theorem levels_runs_chain {bound : Nat} {level : Precedence} {ls : List Precedence}
    (hw : Expression level w e) (hrank : 2 ≤ level.rank ∧ level.rank ≤ 7)
    (htighter : ∀ {w e rest}, Expression level.next w e → Closes level.next rest →
      w.length ≤ bound → Accepts (levels bound operand ls) w e rest)
    (hrest : Closes level.next rest) (hlength : w.length ≤ bound) :
    ∃ k < w.length, Runs (levels bound operand (level :: ls)) w
      (chain level (levels bound operand ls) (bound - k) e) rest := by
  -- on the derivation, whose joins lean to the left: the chain reads the left operand in `k`
  -- rounds, and one more reads the right one
  induction hw generalizing rest with
  | assign => simp [Precedence.rank] at hrank
  | unary => simp [Precedence.rank] at hrank
  | atom => simp [Precedence.rank] at hrank
  | group => simp [Precedence.rank] at hrank
  | tighter _ he =>
    refine ⟨0, List.length_pos_iff.mpr he.ne_nil, ?_⟩
    exact Runs.bind_right (htighter he hrest hlength)
  | @join level w₁ w₂ t op l r hl hop hr ihl _ =>
    simp only [List.length_append, List.length_cons] at hlength
    obtain ⟨k, hk, hleft⟩ :=
      ihl hrank htighter (hop.closes_next (w₂ ++ rest)) (by omega)
    have hright : Accepts (levels bound operand ls) w₂ r rest := htighter hr hrest (by omega)
    refine ⟨k + 1, by simp; omega, Runs.trans hleft ?_⟩
    obtain ⟨m, hm⟩ : ∃ m, bound - k = m + 1 := ⟨bound - (k + 1), by omega⟩
    have hm' : bound - (k + 1) = m := by omega
    rw [hm, hm']
    exact Runs.bind_cons (takeIf_runs (ofLevel?_eq_some.mpr hop)) (Runs.bind_right hright)

/-- An expression on a level of connectives is read from that level on. -/
theorem levels_runs {bound : Nat} {level : Precedence} {ls : List Precedence}
    (hls : Ladder level ls)
    (hoperand : ∀ {w e rest}, Expression .unary w e → w.length ≤ bound → Accepts operand w e rest)
    (hrank : 2 ≤ level.rank) (hw : Expression level w e) (hrest : Closes level rest)
    (hlength : w.length ≤ bound) : Accepts (levels bound operand ls) w e rest := by
  induction hls generalizing w e rest with
  | nil => exact hoperand hw hlength
  | @cons level ls hlevel hls ih =>
    have hnext := rank_next hlevel
    have hle := hls.rank_le
    obtain ⟨k, -, hruns⟩ := levels_runs_chain hw ⟨hrank, by omega⟩
      (fun he hr hl => ih (by omega) he hr hl) (hrest.mono (by rw [le_iff_rank]; omega)) hlength
    exact hruns.trans_nil (chain_runs_nil hrest e)

/-- A derived expression is read, with as many rounds as it has tokens. -/
theorem expression_runs {bound : Nat} (hw : Expression .assignment w e)
    (hlength : w.length ≤ bound) (hrest : EndsExpression rest) :
    Accepts (expression bound) w e rest := by
  -- on the bound, as a group nests an expression that is shorter by its parentheses
  induction bound generalizing w e rest with
  | zero => exact absurd (List.length_eq_zero_iff.mp (by omega)) hw.ne_nil
  | succ bound ih =>
    have hoperand : ∀ {w e rest}, Expression .unary w e → w.length ≤ bound + 1 →
        Accepts (unary (primary (expression bound)) (bound + 1)) w e rest := by
      intro w e rest he hl
      exact unary_runs he hl (Nat.le_refl _) fun he hl => primary_runs he hl ih
    have htarget : ∀ {w e rest}, Expression .or w e → Closes .or rest → w.length ≤ bound + 1 →
        Accepts (levels (bound + 1) (unary (primary (expression bound)) (bound + 1))
          Precedence.connectiveLevels) w e rest :=
      levels_runs ladder_connectiveLevels hoperand (Nat.le_refl _)
    cases hw with
    | join _ hop => cases hop
    | tighter _ he =>
      -- no assignment: the equals sign that is looked for is not there
      have hskip : Accepts (take? (.symbol .equal)) [] none rest := take?_skips hrest.ne_equal
      have hor := htarget he (hrest.closes .or) hlength
      exact (Runs.bind_right hor).trans_nil (Runs.bind_right hskip)
    | @assign t eq w e ht heq he =>
      -- the target is read as an expression of its own first
      have hname : Expression .or [t] (.ident t.line t.lexeme) :=
        (Expression.atom (.ident ht)).loosen (by decide)
      have hor := htarget hname (closes_equal heq .or (w ++ rest)) (by simp)
      simp only [List.length_cons] at hlength
      have hvalue := ih he (by omega) hrest
      exact Runs.bind_cons hor (Runs.bind_cons (take?_runs heq) (Runs.bind_right hvalue))

end Complete

end Scriptlet.Parse
