import Scriptlet.Parse.Climb
import Scriptlet.Proofs.Descent

/-! # Expressions by climbing and the grammar

The climbing parser has no level of its own for any connective: what it has read so far is of some
level, and the next connective decides whether it becomes a left operand. The invariant that ties it
to the grammar is that no connective in front of the cursor binds tighter than the level of what has
been read. It holds because the right operand of a connective was read one level tighter, and reading
stopped there only where nothing of that level came next.

## Main statement

* `strategies_agree`: where a semicolon ends the input, climbing reads the expression `e` without
  errors if and only if recursive descent reads the program that consists of `e` alone.
-/

namespace Scriptlet

namespace Parse

open Grammar Relation

/-- The end of climbing: where an assignment is allowed, an equals sign left over is refused. -/
def finishClimb (level : Precedence) (e : Expr) : Parse Expr := do
  if level ≤ .assignment then refuseAssignment
  return e

/-- Climbing reads an operand, extends it, and looks for an equals sign left over. -/
theorem climb_succ (bound : Nat) (level : Precedence) :
    climb (bound + 1) level =
      (operand (climb bound) level >>= extend (climb bound) level (bound + 1)) >>=
        finishClimb level := by
  rw [bind_assoc]
  rfl

/-! ## Reading notes no errors -/

section Reads

variable {nested : Precedence → Parse Expr}

/-- Looking for an equals sign only reads. -/
theorem refuseAssignment_reads : refuseAssignment.Within Cursor.Read := by
  intro c
  unfold cursorAfter refuseAssignment
  split
  · next h =>
    split at h
    · cases h
    · cases h
      exact .refl
  · next h =>
    split at h
    · cases h
      exact .refl
    · cases h

/-- An operand only reads, if what is nested in it does. -/
theorem operand_reads (h : ∀ level, (nested level).Within Cursor.Read) (level : Precedence) :
    (operand nested level).Within Cursor.Read := by
  refine peek_within.bind fun t => ?_
  split
  · refine advance_reads.bind fun _ => ?_
    split
    · refine (take?_reads _).bind fun o => ?_
      split
      · exact (h _).bind fun _ => .pure _
      · exact .pure _
    · exact .pure _
  · exact advance_reads.bind fun _ => .pure _
  · exact advance_reads.bind fun _ => (h _).bind fun _ => .pure _
  · split
    · exact advance_reads.bind fun _ => (h _).bind fun _ =>
        (expect_reads _ _).bind fun _ => .pure _
    · exact noExpression_within

/-- Extending an operand only reads, if what is nested in it does. -/
theorem extend_reads (h : ∀ level, (nested level).Within Cursor.Read) (level : Precedence)
    (bound : Nat) (left : Expr) : (extend nested level bound left).Within Cursor.Read := by
  induction bound generalizing left with
  | zero => exact .pure left
  | succ bound ih =>
    refine (takeIf_reads _).bind fun o => ?_
    split
    · exact (h _).bind fun right => ih _
    · exact .pure left

/-- Climbing only reads: an error ends it and is noted by nobody. -/
theorem climb_reads (bound : Nat) (level : Precedence) :
    (climb bound level).Within Cursor.Read := by
  induction bound generalizing level with
  | zero => exact noExpression_within
  | succ bound ih =>
    rw [climb_succ]
    refine ((operand_reads ih level).bind (extend_reads ih level _)).bind fun e => ?_
    unfold finishClimb
    split
    · exact refuseAssignment_reads.bind fun _ => .pure _
    · exact .pure _

end Reads

/-! ## Soundness -/

section Sound

variable {nested : Precedence → Parse Expr}

/-- The levels on which an expression is asked for. -/
def Asked (level : Precedence) : Prop :=
  1 ≤ level.rank ∧ level.rank ≤ 8

/-- The tokens read derive the result on a level, and no connective of that level comes next. -/
def Climbed (level : Precedence) (ts : List Token) (e : Expr) (ts' : List Token) : Prop :=
  ∃ w, ts = w ++ ts' ∧ Expression level w e ∧ Closes level ts'

/-- Nothing connects as tightly as a unary operator. -/
theorem closes_of_rank {level : Precedence} (h : 8 ≤ level.rank) (rest : List Token) :
    Closes level rest := by
  intro t _ l op hop hle
  have hbounds := hop.rank_bounds
  rw [le_iff_rank] at hle
  omega

/-- What has been read is of some level `lv`, at least as tight as asked for, and no connective in
front of the cursor binds tighter. -/
def Extensible (level : Precedence) (ts : List Token) (e : Expr) (ts' : List Token) : Prop :=
  ∃ w lv, ts = w ++ ts' ∧ Expression lv w e ∧ level ≤ lv ∧ Closes lv.next ts'

/-- What binds as tight as a unary operator can be extended on any level that is asked for. -/
theorem extensible_of_unary {level : Precedence} (hlevel : Asked level) {w rest : List Token}
    {e : Expr} (he : Expression .unary w e) : Extensible level (w ++ rest) e rest :=
  ⟨w, .unary, rfl, he, hlevel.2, closes_of_rank (by decide) rest⟩

/-- What is read as an operand derives it, and no connective in front of the cursor binds tighter.
-/
theorem operand_sound {bound : Nat}
    (h : ∀ level, (nested level).Sound fun ts e ts' =>
      Asked level → ts.length < bound → Climbed level ts e ts') (level : Precedence) :
    (operand nested level).Sound fun ts e ts' =>
      Asked level → ts.length < bound + 1 → Extensible level ts e ts' := by
  refine peek_sound.bind fun t => ?_
  split
  · -- a name, and an assignment to it where one is allowed
    next line name he =>
    have hatom := atom_iff.mpr he
    cases hatom with
    | ident ht =>
    have hname : Expression .unary [t] (.ident t.line t.lexeme) :=
      .tighter (by decide) (.atom (.ident ht))
    have hne : t.kind ≠ .endOfInput := by rw [ht]; decide
    have hplain : (pure (.ident t.line t.lexeme) : Parse Expr).Sound fun ts e ts' =>
        ∀ ts₀, (ts = ts₀.tail ∧ ∃ rest, ts₀ = t :: rest) →
          Asked level → ts₀.length < bound + 1 → Extensible level ts₀ e ts' := by
      refine .pure ?_
      rintro ts _ ⟨rfl, rest, rfl⟩ hlevel _
      exact extensible_of_unary hlevel hname
    refine advance_sound.bind fun _ => ?_
    split
    · next hassign =>
      refine (take?_sound _).bind fun o => ?_
      split
      · refine (h .assignment).bind fun value => .pure ?_
        rintro ts ts₂ hvalue _ ⟨eq, rfl, heq, -⟩ ts₁ htail _ ⟨rfl, hpeek⟩ _ hlength
        obtain ⟨rest, rfl⟩ := peeked_cons hpeek hne
        simp only [List.tail_cons] at htail
        subst htail
        simp only [List.length_cons] at hlength
        obtain ⟨w, rfl, hw, hcloses⟩ := hvalue ⟨by decide, by decide⟩ (by omega)
        exact ⟨t :: eq :: w, .assignment, rfl, .assign ht heq hw, hassign,
          hcloses.mono (by decide)⟩
      · refine hplain.mono ?_
        rintro ts e ts' hp _ ⟨rfl, -⟩ _ rfl _ ⟨rfl, hpeek⟩
        exact hp _ ⟨rfl, peeked_cons hpeek hne⟩
    · refine hplain.mono ?_
      rintro ts e ts' hp _ rfl _ ⟨rfl, hpeek⟩
      exact hp _ ⟨rfl, peeked_cons hpeek hne⟩
  · -- a literal
    next e _ _ he =>
    refine advance_sound.bind fun _ => .pure ?_
    rintro ts _ rfl _ ⟨rfl, hpeek⟩ hlevel _
    rcases hpeek with ⟨-, hend⟩ | ⟨rest, rfl⟩
    · simp [Expr.ofToken?, hend] at he
    · exact extensible_of_unary hlevel (.tighter (by decide) (.atom (atom_iff.mpr he)))
  · -- a unary operator
    next op _ hop =>
    have hprefix := prefixes_iff.mpr hop
    refine advance_sound.bind fun _ => (h .unary).bind fun e => .pure ?_
    rintro ts ts₂ he ts₁ htail _ ⟨rfl, hpeek⟩ hlevel hlength
    obtain ⟨rest, rfl⟩ := peeked_cons hpeek (by
      intro hend
      rw [hend] at hop
      cases hop)
    simp only [List.tail_cons] at htail
    subst htail
    simp only [List.length_cons] at hlength
    obtain ⟨w, rfl, hw, -⟩ := he ⟨by decide, by decide⟩ (by omega)
    exact extensible_of_unary hlevel (.unary hprefix hw)
  · split
    · -- a group
      next hopen =>
      refine advance_sound.bind fun _ => (h .assignment).bind fun e =>
        closeGroup_sound.bind fun t' => .pure ?_
      rintro ts _ ⟨rfl, hclose⟩ ts₂ he ts₁ htail _ ⟨rfl, hpeek⟩ hlevel hlength
      obtain ⟨rest, rfl⟩ := peeked_cons hpeek (by rw [hopen]; decide)
      simp only [List.tail_cons] at htail
      subst htail
      simp only [List.length_cons] at hlength
      obtain ⟨w, rfl, hw, -⟩ := he ⟨by decide, by decide⟩ (by omega)
      have hgroup : Expression .unary (t :: (w ++ [t'])) (.group t.line e) :=
        .tighter (by decide) (.group hopen hw hclose)
      simpa using extensible_of_unary hlevel hgroup
    · exact noExpression_sound

/-- The connectives behind `left` are taken in as long as they are as tight as asked for. The level
of what has been read falls from round to round. -/
theorem extend_sound {bound : Nat}
    (h : ∀ level, (nested level).Sound fun ts e ts' =>
      Asked level → ts.length < bound → Climbed level ts e ts') (level : Precedence)
    (rounds : Nat) (left : Expr) :
    (extend nested level rounds left).Sound fun ts e ts' =>
      ∀ ts₀, Extensible level ts₀ left ts → ts.length < rounds → ts.length < bound + 1 →
        Climbed level ts₀ e ts' := by
  induction rounds generalizing left with
  | zero =>
    refine .pure fun ts ts₀ _ hlt => ?_
    omega
  | succ rounds ih =>
    refine (takeIf_sound _).bind fun o => ?_
    split
    · next op line =>
      refine (h _).bind fun right => (ih (op.join line left right)).mono ?_
      rintro ts e ts' he ts₂ hright _ ⟨t, rfl, hop, rfl⟩ ts₀ ⟨w, lv, rfl, hleft, hlv, hcloses⟩
        hrounds hlength
      obtain ⟨hconnects, hlevel⟩ := ofLevelUp?_eq_some.mp hop
      have hbounds := hconnects.rank_bounds
      have hnext := rank_next hconnects.ne_primary
      -- the connective is no tighter than what has been read, which can so be its left operand
      have hle : op.precedence ≤ lv := by
        have hlt := hcloses t rfl _ _ hconnects
        rw [le_iff_rank] at hlt ⊢
        by_cases hprimary : lv = .primary
        · rw [hprimary] at hlt ⊢
          exact Nat.le_trans hbounds.2 (by decide)
        · rw [rank_next hprimary] at hlt
          omega
      simp only [List.length_cons] at hrounds hlength
      obtain ⟨w₂, rfl, hw₂, hcloses₂⟩ := hright ⟨by omega, by omega⟩ (by omega)
      simp only [List.length_append] at hrounds hlength
      refine he _ ⟨w ++ t :: w₂, op.precedence, by simp, ?_, hlevel, hcloses₂⟩ (by omega) (by omega)
      exact .join (hleft.loosen hle) hconnects hw₂
    · refine .pure ?_
      rintro ts _ ⟨rfl, hnone⟩ ts₀ ⟨w, lv, rfl, hleft, hlv, -⟩ _ _
      refine ⟨w, rfl, hleft.loosen hlv, ?_⟩
      intro t ht l op hop hle
      have hsome : Connective.ofLevelUp? level t.kind = some op := by
        rw [ofLevelUp?_eq_some, (connects_iff.mp hop).2]
        exact ⟨hop, hle⟩
      rw [hnone t ht] at hsome
      cases hsome

theorem refuseAssignment_sound : refuseAssignment.Sound fun ts _ ts' => ts' = ts := by
  refine ⟨refuseAssignment_reads.step, ?_⟩
  intro c c' _ h _
  unfold refuseAssignment at h
  split at h
  · cases h
  · cases h
    rfl

/-- What climbing reads on a level derives the result on that level. -/
theorem climb_sound (bound : Nat) (level : Precedence) :
    (climb bound level).Sound fun ts e ts' =>
      Asked level → ts.length < bound → Climbed level ts e ts' := by
  induction bound generalizing level with
  | zero => exact noExpression_sound
  | succ bound ih =>
    -- the operand and its extension share the bound on nested climbs
    have hread : (operand (climb bound) level >>=
        extend (climb bound) level (bound + 1)).Sound fun ts e ts' =>
          Asked level → ts.length < bound + 1 → Climbed level ts e ts' := by
      refine (operand_sound ih level).bind fun left => (extend_sound ih level _ left).mono ?_
      intro ts e ts' he ts₀ hleft hlevel hlength
      have hext := hleft hlevel hlength
      have hle : ts.length ≤ ts₀.length := by
        obtain ⟨w, lv, rfl, -⟩ := hext
        simp
      exact he _ hext (by omega) (by omega)
    -- what comes at the end neither reads on nor changes the expression
    have hend : ∀ e, (finishClimb level e).Sound fun ts e' ts' => ts' = ts ∧ e' = e := by
      intro e
      unfold finishClimb
      split
      · refine refuseAssignment_sound.bind fun _ => .pure ?_
        rintro ts _ rfl
        exact ⟨rfl, rfl⟩
      · exact .pure fun ts => ⟨rfl, rfl⟩
    rw [climb_succ]
    refine hread.bind fun e => (hend e).mono ?_
    rintro ts e' _ ⟨rfl, rfl⟩ ts₀ he
    exact he

end Sound

/-! ## Completeness -/

section Complete

variable {w rest : List Token} {e : Expr} {bound : Nat}

/-- What must come next for an expression of a level to end: no connective of the level, and no
equals sign where an assignment is allowed. -/
def Stops (level : Precedence) (rest : List Token) : Prop :=
  Closes level rest ∧ (level ≤ .assignment → ∀ t ∈ rest.head?, t.kind ≠ .symbol .equal)

/-- What ends an expression ends it on every level. -/
theorem stops_of_endsExpression (h : EndsExpression rest) (level : Precedence) :
    Stops level rest :=
  ⟨h.closes level, fun _ => h.ne_equal⟩

/-- Above assignment, an equals sign needs no care. -/
theorem stops_of_closes {level : Precedence} (hlevel : 2 ≤ level.rank) (h : Closes level rest) :
    Stops level rest := by
  refine ⟨h, fun hle => ?_⟩
  rw [le_iff_rank] at hle
  exact absurd (Nat.le_trans hlevel hle) (by decide)

/-- A single token is an operand by itself, unless it is a name in front of an equals sign. -/
theorem operand_runs_atom {nested : Precedence → Parse Expr} {level : Precedence} {t : Token}
    (ht : Atom t e) (hrest : level ≤ .assignment → ∀ t ∈ rest.head?, t.kind ≠ .symbol .equal) :
    Accepts (operand nested level) [t] e rest := by
  have hof := atom_iff.mp ht
  refine Runs.bind_nil peek_runs ?_
  rw [hof]
  cases ht with
  | ident ht =>
    refine Runs.bind_cons advance_runs ?_
    by_cases hle : level ≤ .assignment
    · rw [if_pos hle]
      exact Runs.bind_right (take?_skips (hrest hle))
    · rw [if_neg hle]
      exact .nil _
  | number | string | true_ | false_ | nil_ => exact Runs.bind_right advance_runs

/-- A unary operator is read with its operand. -/
theorem operand_runs_unary {nested : Precedence → Parse Expr} {level : Precedence} {t : Token}
    {op : UnaryOp} (hop : Prefixes t.kind op) (he : Accepts (nested .unary) w e rest) :
    Accepts (operand nested level) (t :: w) (.unary t.line op e) rest := by
  have hnone : Expr.ofToken? t = none := by
    generalize hkind : t.kind = kind at hop
    cases hop <;> simp [Expr.ofToken?, hkind]
  refine Runs.bind_nil peek_runs ?_
  rw [hnone, prefixes_iff.mp hop]
  exact Runs.bind_cons advance_runs (Runs.bind_right he)

/-- A group is read up to its closing parenthesis. -/
theorem operand_runs_group {nested : Precedence → Parse Expr} {level : Precedence} {t t' : Token}
    (hopen : t.kind = .symbol .leftParen) (hclose : t'.kind = .symbol .rightParen)
    (he : Accepts (nested .assignment) w e ([t'] ++ rest)) :
    Accepts (operand nested level) (t :: (w ++ [t'])) (.group t.line e) rest := by
  have hnone : Expr.ofToken? t = none := by simp [Expr.ofToken?, hopen]
  have hunary : UnaryOp.ofToken? t.kind = none := by rw [hopen]; rfl
  refine Runs.bind_nil peek_runs ?_
  rw [hnone, hunary]
  simp only [hopen, if_true]
  exact Runs.bind_cons advance_runs (Runs.bind he (Runs.bind_right (expect_runs hclose)))

/-- Where an assignment is allowed, a name in front of an equals sign is its target. -/
theorem operand_runs_assign {nested : Precedence → Parse Expr} {t eq : Token}
    (ht : t.kind = .identifier) (heq : eq.kind = .symbol .equal)
    (he : Accepts (nested .assignment) w e rest) :
    Accepts (operand nested .assignment) (t :: eq :: w) (.assign t.line t.lexeme e) rest := by
  have hof : Expr.ofToken? t = some (.ident t.line t.lexeme) := atom_iff.mp (.ident ht)
  have hle : Precedence.assignment ≤ .assignment := by decide
  refine Runs.bind_nil peek_runs ?_
  rw [hof]
  refine Runs.bind_cons advance_runs ?_
  rw [if_pos hle]
  exact Runs.bind_cons (take?_runs heq) (Runs.bind_right he)

/-- Reading a derivation leads into the rounds of `extend`, with the derived expression as its left
part. The induction follows the left operands; each connective costs one round. -/
theorem climb_runs_extend {level lv : Precedence} (hw : Expression lv w e) (hlv : 2 ≤ lv.rank)
    (hle : level ≤ lv) (hlength : w.length ≤ bound + 1) (hcloses : Closes lv.next rest)
    (hequal : level ≤ .assignment → ∀ t ∈ rest.head?, t.kind ≠ .symbol .equal)
    (hnested : ∀ {level w e rest}, Expression level w e → Asked level → w.length ≤ bound →
      Stops level rest → Accepts (climb bound level) w e rest) :
    ∃ k < w.length, Runs (operand (climb bound) level >>= extend (climb bound) level (bound + 1)) w
      (extend (climb bound) level (bound + 1 - k) e) rest := by
  -- along the derivation; `k` counts the connectives that are read in a loop and not by nesting
  induction hw generalizing rest with
  | assign => exact absurd hlv (by decide)
  | @tighter lv w e hprimary he ih =>
    have hnext := rank_next hprimary
    have hlast : lv.next ≤ lv.next.next := by cases lv <;> decide
    refine ih (by omega) ?_ hlength (hcloses.mono hlast) hequal
    rw [le_iff_rank] at hle ⊢
    omega
  | @unary t op w e hop he _ =>
    simp only [List.length_cons] at hlength
    refine ⟨0, by simp, ?_⟩
    have hinner := hnested he ⟨by decide, by decide⟩ (by omega)
      (stops_of_closes (by decide) (closes_of_rank (by decide) rest))
    exact Runs.bind_right (operand_runs_unary hop hinner)
  | @atom t e ht => exact ⟨0, by simp, Runs.bind_right (operand_runs_atom ht hequal)⟩
  | @group t t' w e hopen he hclose _ =>
    simp only [List.length_cons, List.length_append, List.length_nil] at hlength
    refine ⟨0, by simp, ?_⟩
    have hinner := hnested he ⟨by decide, by decide⟩ (by omega)
      (stops_of_endsExpression (endsExpression_rightParen hclose rest) .assignment)
    exact Runs.bind_right (operand_runs_group hopen hclose hinner)
  | @join lv w₁ w₂ t op l r hl hop hr ihl _ =>
    simp only [List.length_append, List.length_cons] at hlength
    have hbounds := hop.rank_bounds
    have hnext := rank_next hop.ne_primary
    have hpos := List.length_pos_iff.mpr hl.ne_nil
    have hnotEqual : level ≤ .assignment → ∀ u ∈ (t :: w₂ ++ rest).head?,
        u.kind ≠ .symbol .equal := by
      intro _ u hu heq
      cases hu
      rw [heq] at hop
      cases hop
    -- the left operand is read first, with as many rounds as it has connectives
    obtain ⟨k, hk, hleft⟩ := ihl hlv hle (by omega) (hop.closes_next (w₂ ++ rest)) hnotEqual
    have hright := hnested hr ⟨by omega, by omega⟩ (by omega)
      (stops_of_closes (by omega) hcloses)
    refine ⟨k + 1, by simp; omega, Runs.trans hleft ?_⟩
    obtain ⟨m, hm⟩ : ∃ m, bound + 1 - k = m + 1 := ⟨bound - k, by omega⟩
    have hm' : bound + 1 - (k + 1) = m := by omega
    have hprec : op.precedence = lv := (connects_iff.mp hop).2
    have htake : Connective.ofLevelUp? level t.kind = some op :=
      ofLevelUp?_eq_some.mpr ⟨hprec ▸ hop, hprec ▸ hle⟩
    rw [hm, hm']
    rw [← hprec] at hright
    exact Runs.bind_cons (takeIf_runs htake) (Runs.bind_right hright)

/-- Where an expression of the level stops, there is nothing to refuse. -/
theorem finishClimb_runs {level : Precedence} (hrest : Stops level rest) (e : Expr) :
    Accepts (finishClimb level e) [] e rest := by
  unfold finishClimb
  split
  · next hle =>
    have hrefuse : Accepts refuseAssignment [] () rest := by
      intro line n es
      have hne : (⟨[] ++ rest, line, n, es⟩ : Cursor).current.kind ≠ .symbol .equal := by
        cases rest with
        | nil => simp [Cursor.current, Token.atEnd]
        | cons t rest => exact hrest.2 hle t rfl
      unfold refuseAssignment
      rw [if_neg hne]
      rfl
    exact Runs.bind_nil hrefuse (.nil _)
  · exact .nil _

/-- Where nothing as tight as asked for comes next, `extend` ends. -/
theorem extend_runs_nil {nested : Precedence → Parse Expr} {level : Precedence}
    (h : Closes level rest) (rounds : Nat) (left : Expr) :
    Accepts (extend nested level rounds left) [] left rest := by
  cases rounds with
  | zero => exact .nil _
  | succ rounds =>
    have hskip : Accepts (takeIf (Connective.ofLevelUp? level)) [] none rest := by
      refine takeIf_skips fun t ht => ?_
      cases hop : Connective.ofLevelUp? level t.kind with
      | none => rfl
      | some op =>
        obtain ⟨hconnects, hle⟩ := ofLevelUp?_eq_some.mp hop
        exact absurd hle (h t ht _ _ hconnects)
    exact Runs.bind_nil hskip (.nil _)

/-- Climbing reads every expression of a level, in front of what stops it. -/
theorem climb_runs {level : Precedence} (hw : Expression level w e) (hlevel : Asked level)
    (hlength : w.length ≤ bound) (hrest : Stops level rest) :
    Accepts (climb bound level) w e rest := by
  induction bound generalizing level w e rest with
  | zero => exact absurd (List.length_eq_zero_iff.mp (by omega)) hw.ne_nil
  | succ bound ih =>
    -- an assignment is an operand by itself; everything else is taken in by `extend`
    have hread : Accepts (operand (climb bound) level >>=
        extend (climb bound) level (bound + 1)) w e rest := by
      by_cases hassign : level = .assignment
      · subst hassign
        cases hw with
        | join _ hop => cases hop
        | @assign t eq w e ht heq he =>
          simp only [List.length_cons] at hlength
          have hvalue := ih he hlevel (by omega) hrest
          exact (Runs.bind_right (operand_runs_assign ht heq hvalue)).trans_nil
            (extend_runs_nil hrest.1 _ _)
        | tighter _ he =>
          obtain ⟨k, -, hruns⟩ := climb_runs_extend he (by decide) (by decide) hlength
            (hrest.1.mono (by decide)) hrest.2 ih
          exact hruns.trans_nil (extend_runs_nil hrest.1 _ _)
      · have hrank : 2 ≤ level.rank := by
          have hone := hlevel.1
          cases level <;> simp_all [Precedence.rank]
        have hlast : level ≤ level.next := by cases level <;> decide
        obtain ⟨k, -, hruns⟩ := climb_runs_extend hw hrank (Nat.le_refl _) hlength
          (hrest.1.mono hlast) hrest.2 ih
        exact hruns.trans_nil (extend_runs_nil hrest.1 _ _)
    rw [climb_succ]
    exact (Runs.bind_right hread).trans_nil (finishClimb_runs hrest e)

end Complete

/-! ## An expression by itself -/

/-- An expression that is read alone is followed by nothing, or by a semicolon and nothing. -/
theorem loneExpression_sound (bound : Nat) :
    (loneExpression bound).Sound fun ts o ts' => ∀ e, o = some e → ts.length < bound →
      ∃ w, Expression .assignment w e ∧ (∀ t ∈ ts'.head?, t.kind = .endOfInput) ∧
        (ts = w ++ ts' ∨ ∃ t, t.kind = .symbol .semicolon ∧ ts = w ++ t :: ts') := by
  refine (climb_sound bound .assignment).attempt.bind fun o => ?_
  split
  · refine (record_sound (R := fun _ _ _ => False) _).bind fun _ => .pure fun _ _ h => h.elim
  · next e =>
    refine (take?_sound _).bind fun o => peek_sound.bind fun next => ?_
    split
    · refine (record_sound (R := fun _ _ _ => False) _).bind fun _ => .pure fun _ _ h => h.elim
    · next hkind =>
      refine .pure ?_
      rintro ts _ ⟨rfl, hpeek⟩ ts₁ hsemicolon ts₀ he e' he' hlength
      cases he'
      -- the end mark comes next, so nothing is left over
      obtain ⟨w, rfl, hw, -⟩ := he e rfl ⟨by decide, by decide⟩ hlength
      refine ⟨w, hw, ?_, ?_⟩
      · intro t ht
        rcases hpeek with ⟨rfl, -⟩ | ⟨rest, rfl⟩
        · cases ht
        · cases ht
          exact not_not.mp hkind
      · cases o with
        | none =>
          obtain ⟨rfl, -⟩ := hsemicolon
          exact .inl rfl
        | some line =>
          obtain ⟨t, rfl, ht, -⟩ := hsemicolon
          exact .inr ⟨t, ht, rfl⟩

/-- An expression with a semicolon behind it is read alone. -/
theorem loneExpression_runs {bound : Nat} {w : List Token} {e : Expr} {t : Token}
    (hw : Expression .assignment w e) (ht : t.kind = .symbol .semicolon)
    (hlength : w.length ≤ bound) : Accepts (loneExpression bound) (w ++ [t]) (some e) [] := by
  have hclimb : Accepts (climb bound .assignment) w e ([t] ++ []) :=
    climb_runs hw ⟨by decide, by decide⟩ hlength
      (stops_of_endsExpression (endsExpression_semicolon ht []) .assignment)
  exact Runs.bind (attempt_runs hclimb)
    (Runs.bind_cons (take?_runs ht) fun line n es => rfl)

/-- Reading an expression by itself notes at most one error, and one if it gives no expression. -/
theorem loneExpression_errors (bound : Nat) (c : Cursor) (hc : c.errors = #[]) :
    ∃ o c', loneExpression bound c = .ok o c' ∧ c'.errors.size ≤ 1 ∧
      (o = none → c'.errors.size = 1) := by
  have hquiet := Cursor.errors_of_reads (climb_reads bound .assignment c)
  cases hclimb : climb bound .assignment c with
  | error e c₁ =>
    rw [cursorAfter_error hclimb, hc] at hquiet
    refine ⟨none, c₁.record e, ?_, ?_, ?_⟩
    · have hattempt : attempt (climb bound .assignment) c = .ok (.error e) c₁ := by
        simp [attempt, hclimb]
      exact EStateM.bind_of_ok hattempt
    · simp [Cursor.record, hquiet]
    · simp [Cursor.record, hquiet]
  | ok e c₁ =>
    rw [cursorAfter_ok hclimb, hc] at hquiet
    have hattempt : attempt (climb bound .assignment) c = .ok (.ok e) c₁ := by
      simp [attempt, hclimb]
    -- taking a semicolon never fails, and notes nothing
    have htake : ∃ o c₂, take? (.symbol .semicolon) c₁ = .ok o c₂ ∧ c₂.errors = #[] := by
      have hreads := Cursor.errors_of_reads (take?_reads (.symbol .semicolon) c₁)
      cases h : take? (.symbol .semicolon) c₁ with
      | ok o c₂ =>
        rw [cursorAfter_ok h, hquiet] at hreads
        exact ⟨o, c₂, rfl, hreads⟩
      | error e c₂ =>
        unfold take? at h
        split at h
        · cases h
        · split at h <;> cases h
    obtain ⟨o, c₂, htake, hc₂⟩ := htake
    by_cases hend : c₂.current.kind = .endOfInput
    · refine ⟨some e, c₂, ?_, by simp [hc₂], by simp⟩
      refine (EStateM.bind_of_ok hattempt).trans ((EStateM.bind_of_ok htake).trans ?_)
      simp [peek, bind, EStateM.bind, hend, pure, EStateM.pure]
    · refine ⟨some e, c₂.record (.trailingToken c₂.current.describe c₂.current.line), ?_,
        by simp [Cursor.record, hc₂], by simp⟩
      refine (EStateM.bind_of_ok hattempt).trans ((EStateM.bind_of_ok htake).trans ?_)
      simp [peek, bind, EStateM.bind, hend, pure, EStateM.pure, record]

end Parse

/-! ## The two strategies -/

open Grammar

/-- The last token that is read is a semicolon. -/
def EndsInSemicolon (ts : List Token) : Prop :=
  (bodyOf ts).getLast?.map Token.kind = some (.symbol .semicolon)

/-- Tokens that derive an expression, with a semicolon behind it, are parsed to that expression. -/
theorem parseExpression_of_expression {ts w : List Token} {e : Expr} {t : Token}
    (hbody : bodyOf ts = w ++ [t]) (hw : Expression .assignment w e)
    (ht : t.kind = .symbol .semicolon) :
    parseExpression ts = { result := some e, errors := [] } := by
  have hlength := length_bodyOf_le ts
  rw [hbody, List.length_append] at hlength
  have hruns := Parse.loneExpression_runs hw ht (Nat.le_succ_of_le (Nat.le_of_add_right_le hlength))
    (Cursor.ofTokens ts).endLine 0 #[]
  rw [List.append_nil, ← hbody] at hruns
  have hcursor : Cursor.ofTokens ts = ⟨bodyOf ts, (Cursor.ofTokens ts).endLine, 0, #[]⟩ := rfl
  unfold parseExpression
  rw [hcursor, hruns]
  rfl

/-- An expression that climbing accepts in front of a semicolon is derived by the tokens in front of
that semicolon. -/
theorem expression_of_parseExpression {ts : List Token} {e : Expr} (hts : EndsInSemicolon ts)
    (h : parseExpression ts = { result := some e, errors := [] }) :
    ∃ w t, bodyOf ts = w ++ [t] ∧ Expression .assignment w e ∧ t.kind = .symbol .semicolon := by
  unfold parseExpression at h
  cases hrun : Parse.loneExpression (ts.length + 1) (.ofTokens ts) with
  | error e c => simp [hrun] at h
  | ok o c =>
    simp only [hrun, Parsed.mk.injEq, Array.toList_eq_nil_iff] at h
    obtain ⟨rfl, herrors⟩ := h
    have hlength : (bodyOf ts).length < ts.length + 1 := Nat.lt_succ_of_le (length_bodyOf_le ts)
    obtain ⟨w, hw, hend, hsplit⟩ :=
      (Parse.loneExpression_sound _).gives hrun herrors e rfl hlength
    have hnil : c.rest = [] := by
      refine @rest_eq_nil ts _ ?_ hend
      rcases hsplit with hbody | ⟨t, -, hbody⟩
      · exact ⟨w, hbody.symm⟩
      · exact ⟨w ++ [t], by rw [List.append_assoc]; exact hbody.symm⟩
    rw [hnil] at hsplit
    rcases hsplit with hbody | ⟨t, ht, hbody⟩
    · -- an expression does not end in a semicolon
      have hbody' : bodyOf ts = w := by rw [← List.append_nil w]; exact hbody
      unfold EndsInSemicolon at hts
      rw [hbody', Option.map_eq_some_iff] at hts
      obtain ⟨t, ht, hkind⟩ := hts
      exact absurd hkind (hw.kind_ne_semicolon t (List.mem_of_getLast? ht))
    · exact ⟨w, t, hbody, hw, ht⟩

/-- A program of a single expression statement is an expression and a semicolon. -/
theorem program_singleton_iff {w : List Token} {e : Expr} :
    Grammar.Program w [.expression e.line e] ↔
      ∃ w' t, w = w' ++ [t] ∧ Expression .assignment w' e ∧ t.kind = .symbol .semicolon := by
  constructor
  · intro h
    cases h with
    | cons hs hp =>
      cases hp
      cases hs with
      | statement hs =>
        rw [List.append_nil]
        exact hs.of_expression
  · rintro ⟨w', t, rfl, he, ht⟩
    have h := Declarations.cons (.statement (.expression he ht)) .nil
    rwa [List.append_nil] at h

/-- The two strategies agree: where a semicolon ends the input, climbing reads the expression `e`
without errors if and only if recursive descent reads the program that consists of `e` alone without
errors, and the two trees are the same, with all their lines. Whatever the tokens, climbing reports at
most one error, and reports one if it gives no expression. -/
theorem strategies_agree :
    (∀ (ts : List Token) (e : Expr), EndsInSemicolon ts →
      (parseExpression ts = { result := some e, errors := [] } ↔
        parseProgram ts = { result := [.expression e.line e], errors := [] })) ∧
    (∀ ts : List Token, (parseExpression ts).errors.length ≤ 1 ∧
      ((parseExpression ts).result = none → (parseExpression ts).errors ≠ [])) := by
  constructor
  · intro ts e hts
    constructor
    · intro h
      -- both strategies are tied to the grammar, and so to each other
      have hw := expression_of_parseExpression hts h
      exact parseProgram_of_program (program_singleton_iff.mpr hw)
    · intro h
      obtain ⟨w, t, hbody, hw, ht⟩ := program_singleton_iff.mp (program_of_parseProgram h)
      exact parseExpression_of_expression hbody hw ht
  · intro ts
    obtain ⟨o, c, hrun, hsize, hnone⟩ :=
      Parse.loneExpression_errors (ts.length + 1) (.ofTokens ts) rfl
    unfold parseExpression
    rw [hrun]
    refine ⟨by simpa using hsize, fun ho herrors => ?_⟩
    have hone := hnone ho
    have hzero : c.errors.size = 0 := by
      rw [← Array.length_toList]
      exact congrArg List.length herrors
    omega

/-- The strategies agree on `a = -b * 2 ;` over two lines. -/
theorem strategies_agree_product :
    let ts : List Token :=
      [⟨.identifier, "a", 1, none⟩, ⟨.symbol .equal, "=", 1, none⟩, ⟨.symbol .minus, "-", 1, none⟩,
        ⟨.identifier, "b", 2, none⟩, ⟨.symbol .star, "*", 2, none⟩,
        ⟨.number, "2", 2, some (.int 2)⟩, ⟨.symbol .semicolon, ";", 2, none⟩, .atEnd 2]
    let e : Expr := .assign 1 "a"
      (.binary 2 .multiply (.unary 1 .negate (.ident 2 "b")) (.literal 2 (.int 2)))
    EndsInSemicolon ts ∧ parseProgram ts = { result := [.expression 1 e], errors := [] } := by
  intro ts e
  have hts : EndsInSemicolon ts := rfl
  exact ⟨hts, (strategies_agree.1 ts e hts).mp rfl⟩

end Scriptlet
