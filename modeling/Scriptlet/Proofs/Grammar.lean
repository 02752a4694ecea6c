import Scriptlet.Parse.Precedence
import Scriptlet.Syntax.Stmt

/-! # The grammar of the language

What a sequence of tokens means, said without a parser. `Expression level w e` says that the tokens
`w` derive the expression `e` on a level of precedence; `Statement`, `Declaration` and `Declarations`
do the same for the larger parts of a program. Every token of a part stands in its sequence exactly
once and in order, and every node of a tree takes its names, values, operators and lines from the
tokens at its place.

The rules are those of a book, with one addition: an `else` belongs to the nearest `if` that is open
in front of it, so the statement between an `if` and its `else` must not end in an open `if`.
-/

namespace Scriptlet

/-- Does a statement end in an `if` without `else`? An `else` behind it would belong to that `if`. -/
def Stmt.endsOpen : Stmt → Bool
  | .ifThen _ _ _ none => true
  | .ifThen _ _ _ (some no) => no.endsOpen
  | .whileDo _ _ body => body.endsOpen
  | _ => false

/-- Is it a variable declaration? -/
def Stmt.declares : Stmt → Bool
  | .var _ _ _ => true
  | _ => false

mutual

/-- Does each declaration within a statement stand directly in a block? -/
def Stmt.placed : Stmt → Bool
  | .print _ _ => true
  | .expression _ _ => true
  | .var _ _ _ => true
  | .block _ body => Stmt.allPlaced body
  | .ifThen _ _ yes none => !yes.declares && yes.placed
  | .ifThen _ _ yes (some no) => (!yes.declares && yes.placed) && (!no.declares && no.placed)
  | .whileDo _ _ body => !body.declares && body.placed

/-- Does each declaration stand in the sequence itself or directly in a block? -/
def Stmt.allPlaced : List Stmt → Bool
  | [] => true
  | s :: rest => s.placed && Stmt.allPlaced rest

end

/-- The statements under a condition are no declarations. -/
theorem Stmt.placed_ifThen {line : Nat} {condition : Expr} {yes : Stmt} {no : Option Stmt} :
    (Stmt.ifThen line condition yes no).placed = true ↔
      (yes.declares = false ∧ yes.placed = true) ∧
        ∀ st ∈ no, st.declares = false ∧ st.placed = true := by
  cases no with
  | none => simp [Stmt.placed]
  | some no => simp [Stmt.placed]

/-- The body of a loop is no declaration. -/
theorem Stmt.placed_whileDo {line : Nat} {condition : Expr} {body : Stmt} :
    (Stmt.whileDo line condition body).placed = true ↔
      body.declares = false ∧ body.placed = true := by
  simp [Stmt.placed]

namespace Grammar

/-! ## Terminals -/

/-- The token that joins two operands on a level, and what it joins them by. -/
inductive Connects : Precedence → TokenKind → Connective → Prop where
  | or : Connects .or (.keyword .or_) (.logical .or)
  | and : Connects .and (.keyword .and_) (.logical .and)
  | equal : Connects .equality (.symbol .equalEqual) (.binary .equal)
  | notEqual : Connects .equality (.symbol .bangEqual) (.binary .notEqual)
  | less : Connects .comparison (.symbol .less) (.binary .less)
  | lessEqual : Connects .comparison (.symbol .lessEqual) (.binary .lessEqual)
  | greater : Connects .comparison (.symbol .greater) (.binary .greater)
  | greaterEqual : Connects .comparison (.symbol .greaterEqual) (.binary .greaterEqual)
  | add : Connects .term (.symbol .plus) (.binary .add)
  | subtract : Connects .term (.symbol .minus) (.binary .subtract)
  | multiply : Connects .factor (.symbol .star) (.binary .multiply)
  | divide : Connects .factor (.symbol .slash) (.binary .divide)

/-- The token in front of an operand, and the operator that it stands for. -/
inductive Prefixes : TokenKind → UnaryOp → Prop where
  | negate : Prefixes (.symbol .minus) .negate
  | not : Prefixes (.symbol .bang) .not

/-- A token that is an expression by itself. A literal token without a value denotes nil. -/
inductive Atom : Token → Expr → Prop where
  | number {t : Token} (ht : t.kind = .number) : Atom t (.literal t.line (t.literal.getD .nil))
  | string {t : Token} (ht : t.kind = .string) : Atom t (.literal t.line (t.literal.getD .nil))
  | true_ {t : Token} (ht : t.kind = .keyword .true_) : Atom t (.literal t.line (.bool true))
  | false_ {t : Token} (ht : t.kind = .keyword .false_) : Atom t (.literal t.line (.bool false))
  | nil_ {t : Token} (ht : t.kind = .keyword .nil_) : Atom t (.literal t.line .nil)
  | ident {t : Token} (ht : t.kind = .identifier) : Atom t (.ident t.line t.lexeme)

/-! ## Expressions -/

/-- The tokens `w` derive the expression `e` on a level. The levels are, from the loosest to the
tightest: assignment, the six levels of connectives, unary operators, primary expressions. -/
inductive Expression : Precedence → List Token → Expr → Prop where
  /-- An assignment to a name, grouped to the right. -/
  | assign {t eq : Token} {w : List Token} {e : Expr} (ht : t.kind = .identifier)
      (heq : eq.kind = .symbol .equal) (he : Expression .assignment w e) :
      Expression .assignment (t :: eq :: w) (.assign t.line t.lexeme e)
  /-- An expression of the next tighter level. -/
  | tighter {level : Precedence} {w : List Token} {e : Expr} (hlevel : level ≠ .primary)
      (he : Expression level.next w e) : Expression level w e
  /-- Two operands joined by a connective, grouped to the left. -/
  | join {level : Precedence} {w₁ w₂ : List Token} {t : Token} {op : Connective} {l r : Expr}
      (hl : Expression level w₁ l) (hop : Connects level t.kind op)
      (hr : Expression level.next w₂ r) :
      Expression level (w₁ ++ t :: w₂) (op.join t.line l r)
  /-- A unary operator in front of an operand. -/
  | unary {t : Token} {op : UnaryOp} {w : List Token} {e : Expr} (hop : Prefixes t.kind op)
      (he : Expression .unary w e) : Expression .unary (t :: w) (.unary t.line op e)
  | atom {t : Token} {e : Expr} (ht : Atom t e) : Expression .primary [t] e
  /-- An expression of any level in parentheses. -/
  | group {t t' : Token} {w : List Token} {e : Expr} (hopen : t.kind = .symbol .leftParen)
      (he : Expression .assignment w e) (hclose : t'.kind = .symbol .rightParen) :
      Expression .primary (t :: (w ++ [t'])) (.group t.line e)

/-- A condition: an expression in parentheses that are not part of the tree. -/
inductive Condition : List Token → Expr → Prop where
  | mk {t t' : Token} {w : List Token} {e : Expr} (hopen : t.kind = .symbol .leftParen)
      (he : Expression .assignment w e) (hclose : t'.kind = .symbol .rightParen) :
      Condition (t :: (w ++ [t'])) e

/-! ## Statements and programs -/

mutual

/-- The tokens `w` derive the statement `s`. -/
inductive Statement : List Token → Stmt → Prop where
  | print {t t' : Token} {w : List Token} {e : Expr} (ht : t.kind = .keyword .print_)
      (he : Expression .assignment w e) (ht' : t'.kind = .symbol .semicolon) :
      Statement (t :: (w ++ [t'])) (.print t.line e)
  | expression {t' : Token} {w : List Token} {e : Expr} (he : Expression .assignment w e)
      (ht' : t'.kind = .symbol .semicolon) : Statement (w ++ [t']) (.expression e.line e)
  | ifThen {t : Token} {w₁ w₂ : List Token} {e : Expr} {yes : Stmt} (ht : t.kind = .keyword .if_)
      (he : Condition w₁ e) (hyes : Statement w₂ yes) :
      Statement (t :: (w₁ ++ w₂)) (.ifThen t.line e yes none)
  /-- The statement in front of an `else` leaves no `if` open, so the `else` is not its own. -/
  | ifElse {t t' : Token} {w₁ w₂ w₃ : List Token} {e : Expr} {yes no : Stmt}
      (ht : t.kind = .keyword .if_) (he : Condition w₁ e) (hyes : Statement w₂ yes)
      (hclosed : yes.endsOpen = false) (ht' : t'.kind = .keyword .else_)
      (hno : Statement w₃ no) :
      Statement (t :: (w₁ ++ (w₂ ++ t' :: w₃))) (.ifThen t.line e yes (some no))
  | whileDo {t : Token} {w₁ w₂ : List Token} {e : Expr} {body : Stmt}
      (ht : t.kind = .keyword .while_) (he : Condition w₁ e) (hbody : Statement w₂ body) :
      Statement (t :: (w₁ ++ w₂)) (.whileDo t.line e body)
  | block {t t' : Token} {w : List Token} {body : List Stmt} (ht : t.kind = .symbol .leftBrace)
      (hbody : Declarations w body) (ht' : t'.kind = .symbol .rightBrace) :
      Statement (t :: (w ++ [t'])) (.block t.line body)

/-- The tokens `w` derive `s`, which is a variable declaration or a statement. -/
inductive Declaration : List Token → Stmt → Prop where
  | var {t name t' : Token} (ht : t.kind = .keyword .var_) (hname : name.kind = .identifier)
      (ht' : t'.kind = .symbol .semicolon) :
      Declaration [t, name, t'] (.var t.line name.lexeme none)
  | varInitial {t name eq t' : Token} {w : List Token} {e : Expr} (ht : t.kind = .keyword .var_)
      (hname : name.kind = .identifier) (heq : eq.kind = .symbol .equal)
      (he : Expression .assignment w e) (ht' : t'.kind = .symbol .semicolon) :
      Declaration (t :: name :: eq :: (w ++ [t'])) (.var t.line name.lexeme (some e))
  | statement {w : List Token} {s : Stmt} (hs : Statement w s) : Declaration w s

/-- The tokens `w` derive the declarations `p`, one after the other. -/
inductive Declarations : List Token → List Stmt → Prop where
  | nil : Declarations [] []
  | cons {w₁ w₂ : List Token} {s : Stmt} {p : List Stmt} (hs : Declaration w₁ s)
      (hp : Declarations w₂ p) : Declarations (w₁ ++ w₂) (s :: p)

end

/-- The tokens `w` derive the program `p`. -/
abbrev Program (w : List Token) (p : Scriptlet.Program) : Prop :=
  Declarations w p

/-! ## Where declarations stand -/

mutual

/-- A statement of the grammar is no declaration, and holds declarations in blocks only. -/
theorem placed_of_statement : {w : List Token} → {s : Stmt} → Statement w s →
    s.declares = false ∧ s.placed = true
  | _, _, .print _ _ _ => ⟨rfl, rfl⟩
  | _, _, .expression _ _ => ⟨rfl, rfl⟩
  | _, _, .ifThen _ _ hyes => by
      rcases placed_of_statement hyes with ⟨hdeclares, hplaced⟩
      exact ⟨rfl, by simp [Stmt.placed, hdeclares, hplaced]⟩
  | _, _, .ifElse _ _ hyes _ _ hno => by
      rcases placed_of_statement hyes with ⟨hdeclares, hplaced⟩
      rcases placed_of_statement hno with ⟨hdeclares', hplaced'⟩
      exact ⟨rfl, by simp [Stmt.placed, hdeclares, hplaced, hdeclares', hplaced']⟩
  | _, _, .whileDo _ _ hbody => by
      rcases placed_of_statement hbody with ⟨hdeclares, hplaced⟩
      exact ⟨rfl, by simp [Stmt.placed, hdeclares, hplaced]⟩
  -- only here a declaration may stand within a statement
  | _, _, .block _ hbody _ => by
      have hplaced := allPlaced_of_declarations hbody
      exact ⟨rfl, by simp [Stmt.placed, hplaced]⟩

/-- What derives as a declaration has its declarations in sequences. -/
theorem placed_of_declaration : {w : List Token} → {s : Stmt} → Declaration w s →
    s.placed = true
  | _, _, .var _ _ _ => rfl
  | _, _, .varInitial _ _ _ _ _ => rfl
  | _, _, .statement hs => (placed_of_statement hs).2

theorem allPlaced_of_declarations : {w : List Token} → {p : List Stmt} → Declarations w p →
    Stmt.allPlaced p = true
  | _, _, .nil => rfl
  | _, _, .cons hs hp => by
      have hfirst := placed_of_declaration hs
      have hrest := allPlaced_of_declarations hp
      simp [Stmt.allPlaced, hfirst, hrest]

end

/-! ## Terminals as the tables give them -/

/-- The connectives of a level are those that the table of connectives puts on it. -/
theorem connects_iff {level : Precedence} {kind : TokenKind} {op : Connective} :
    Connects level kind op ↔ Connective.ofToken? kind = some op ∧ op.precedence = level := by
  constructor
  · intro h
    cases h <;> exact ⟨rfl, rfl⟩
  · rintro ⟨hop, rfl⟩
    rcases kind with s | k | _ | _ | _ | _
    · cases s <;> cases hop <;> constructor
    · cases k <;> cases hop <;> constructor
    all_goals cases hop

/-- The parser looks for the connectives that the grammar has on a level. -/
theorem ofLevel?_eq_some {level : Precedence} {kind : TokenKind} {op : Connective} :
    Connective.ofLevel? level kind = some op ↔ Connects level kind op := by
  simp [Connective.ofLevel?, Option.filter_eq_some_iff, connects_iff]

/-- Climbing looks for the connectives of a level and of all tighter ones. -/
theorem ofLevelUp?_eq_some {level : Precedence} {kind : TokenKind} {op : Connective} :
    Connective.ofLevelUp? level kind = some op ↔
      Connects op.precedence kind op ∧ level ≤ op.precedence := by
  simp [Connective.ofLevelUp?, Option.filter_eq_some_iff, connects_iff]

/-- The parser looks for the prefix operators of the grammar. -/
theorem prefixes_iff {kind : TokenKind} {op : UnaryOp} :
    Prefixes kind op ↔ UnaryOp.ofToken? kind = some op := by
  constructor
  · intro h
    cases h <;> rfl
  · intro h
    rcases kind with s | k | _ | _ | _ | _
    · cases s <;> cases h <;> constructor
    all_goals cases h

/-- The parser makes an expression of exactly those tokens that are one. -/
theorem atom_iff {t : Token} {e : Expr} : Atom t e ↔ Expr.ofToken? t = some e := by
  constructor
  · intro h
    cases h with
    | number ht | string ht | true_ ht | false_ ht | nil_ ht | ident ht =>
      simp [Expr.ofToken?, ht]
  · intro h
    -- the kinds are distinct, so each branch of the definition is one constructor
    unfold Expr.ofToken? at h
    split at h
    · next ht => exact Option.some.inj h ▸ .number ht
    · next ht => exact Option.some.inj h ▸ .string ht
    · next ht => exact Option.some.inj h ▸ .true_ ht
    · next ht => exact Option.some.inj h ▸ .false_ ht
    · next ht => exact Option.some.inj h ▸ .nil_ ht
    · next ht => exact Option.some.inj h ▸ .ident ht
    · cases h

/-! ## Levels -/

theorem le_iff_rank {p q : Precedence} : p ≤ q ↔ p.rank ≤ q.rank :=
  Iff.rfl

theorem rank_injective {p q : Precedence} (h : p.rank = q.rank) : p = q := by
  cases p <;> cases q <;> first | rfl | cases h

/-- The next level is one rank tighter. -/
theorem rank_next {p : Precedence} (h : p ≠ .primary) : p.next.rank = p.rank + 1 := by
  cases p <;> first | rfl | exact absurd rfl h

/-- Connectives stand between assignments and unary operators. -/
theorem Connects.rank_bounds {level : Precedence} {kind : TokenKind} {op : Connective}
    (h : Connects level kind op) : 2 ≤ level.rank ∧ level.rank ≤ 7 := by
  cases h <;> decide

/-- Nothing is joined on the tightest level. -/
theorem Connects.ne_primary {level : Precedence} {kind : TokenKind} {op : Connective}
    (h : Connects level kind op) : level ≠ .primary := by
  cases h <;> decide

/-- A token joins operands on one level only. -/
theorem Connects.level_unique {l₁ l₂ : Precedence} {kind : TokenKind} {op₁ op₂ : Connective}
    (h₁ : Connects l₁ kind op₁) (h₂ : Connects l₂ kind op₂) : l₁ = l₂ := by
  rw [connects_iff] at h₁ h₂
  have hop : op₁ = op₂ := Option.some.inj (h₁.1.symm.trans h₂.1)
  rw [← h₁.2, ← h₂.2, hop]

/-- An expression of a level is also one of every looser level. -/
theorem Expression.loosen {level level' : Precedence} {w : List Token} {e : Expr}
    (he : Expression level' w e) (h : level ≤ level') : Expression level w e := by
  -- on the number of levels in between, of which each is passed by one rule
  obtain ⟨n, hn⟩ := Nat.exists_eq_add_of_le (le_iff_rank.mp h)
  induction n generalizing level with
  | zero => exact rank_injective hn ▸ he
  | succ n ih =>
    have hne : level ≠ .primary := by
      rintro rfl
      have hbound : level'.rank ≤ Precedence.primary.rank := by cases level' <;> decide
      omega
    have hnext : level'.rank = level.next.rank + n := by rw [rank_next hne]; omega
    exact .tighter hne (ih (by rw [le_iff_rank]; omega) hnext)

/-! ## What derivations are made of -/

/-- An expression has a token. -/
theorem Expression.ne_nil {level : Precedence} {w : List Token} {e : Expr}
    (h : Expression level w e) : w ≠ [] := by
  induction h with
  | tighter _ _ ih => exact ih
  | join _ _ _ _ _ => simp
  | assign | unary | atom | group => simp

/-- No semicolon stands within an expression. -/
theorem Expression.kind_ne_semicolon {level : Precedence} {w : List Token} {e : Expr}
    (h : Expression level w e) : ∀ t ∈ w, t.kind ≠ .symbol .semicolon := by
  -- on the derivation: no rule has a semicolon of its own
  induction h with
  | assign ht heq _ ih => simp_all
  | tighter _ _ ih => exact ih
  | @join level w₁ w₂ t op l r _ hop _ ihl ihr =>
    have ht : t.kind ≠ .symbol .semicolon := by
      intro ht
      rw [ht] at hop
      cases hop
    simp only [List.mem_append, List.mem_cons]
    rintro u (hu | rfl | hu)
    · exact ihl u hu
    · exact ht
    · exact ihr u hu
  | @unary t op w e hop _ ih =>
    have ht : t.kind ≠ .symbol .semicolon := by
      intro ht
      rw [ht] at hop
      cases hop
    simp_all
  | atom ht => cases ht <;> simp_all
  | group hopen _ hclose ih =>
    simp only [List.mem_cons, List.mem_append, List.not_mem_nil, or_false]
    rintro u (rfl | hu | rfl)
    · simp [hopen]
    · exact ih u hu
    · simp [hclose]

/-- An expression that is a variable is a single name token. -/
theorem Expression.of_ident {level : Precedence} {w : List Token} {line : Nat} {name : String}
    (h : Expression level w (.ident line name)) :
    ∃ t, w = [t] ∧ t.kind = .identifier ∧ t.line = line ∧ t.lexeme = name := by
  -- among the rules that give a name there are only that for atoms and those that pass a level
  generalize he : Expr.ident line name = e at h
  induction h with
  | tighter _ _ ih => exact ih he
  | @join _ _ _ _ op => cases op <;> cases he
  | atom ht =>
    cases ht <;> cases he
    next t ht => exact ⟨t, rfl, ht, rfl, rfl⟩
  | assign | unary | group => cases he

theorem Statement.ne_nil {w : List Token} {s : Stmt} (h : Statement w s) : w ≠ [] := by
  cases h <;> simp

/-- An expression statement is an expression and a semicolon. -/
theorem Statement.of_expression {w : List Token} {line : Nat} {e : Expr}
    (h : Statement w (.expression line e)) :
    ∃ w' t, w = w' ++ [t] ∧ Expression .assignment w' e ∧ t.kind = .symbol .semicolon := by
  generalize hs : Stmt.expression line e = s at h
  cases h with
  | @expression t w' e he ht =>
    cases hs
    exact ⟨w', t, rfl, he, ht⟩
  | print | ifThen | ifElse | whileDo | block => cases hs

theorem Declaration.ne_nil {w : List Token} {s : Stmt} (h : Declaration w s) : w ≠ [] := by
  cases h with
  | statement hs => exact hs.ne_nil
  | var | varInitial => simp

/-! ## What can follow -/

/-- The next token, if there is one, is no connective of the given or a tighter level. -/
def Closes (level : Precedence) (rest : List Token) : Prop :=
  ∀ t ∈ rest.head?, ∀ l op, Connects l t.kind op → ¬ level ≤ l

/-- The next token, if there is one, continues no expression. -/
def EndsExpression (rest : List Token) : Prop :=
  ∀ t ∈ rest.head?, t.kind ≠ .symbol .equal ∧ ∀ l op, ¬ Connects l t.kind op

/-- What closes a level closes the tighter ones. -/
theorem Closes.mono {level level' : Precedence} {rest : List Token} (h : Closes level rest)
    (hle : level ≤ level') : Closes level' rest := by
  intro t ht l op hop hl
  exact h t ht l op hop (Nat.le_trans hle hl)

/-- A connective of a level does not belong to a tighter one. -/
theorem Connects.closes_next {level : Precedence} {t : Token} {op : Connective}
    (h : Connects level t.kind op) (rest : List Token) : Closes level.next (t :: rest) := by
  intro u hu l op' hop' hle
  cases hu
  rw [h.level_unique hop', le_iff_rank, rank_next hop'.ne_primary] at hle
  omega

/-- What ends an expression closes every level. -/
theorem EndsExpression.closes {rest : List Token} (h : EndsExpression rest)
    (level : Precedence) : Closes level rest :=
  fun t ht l op hop => absurd hop ((h t ht).2 l op)

theorem EndsExpression.ne_equal {rest : List Token} (h : EndsExpression rest) :
    ∀ t ∈ rest.head?, t.kind ≠ .symbol .equal :=
  fun t ht => (h t ht).1

/-- A semicolon ends an expression. -/
theorem endsExpression_semicolon {t : Token} (ht : t.kind = .symbol .semicolon)
    (rest : List Token) : EndsExpression (t :: rest) := by
  intro u hu
  cases hu
  rw [ht]
  exact ⟨by decide, fun _ _ h => by cases h⟩

/-- A closing parenthesis ends an expression. -/
theorem endsExpression_rightParen {t : Token} (ht : t.kind = .symbol .rightParen)
    (rest : List Token) : EndsExpression (t :: rest) := by
  intro u hu
  cases hu
  rw [ht]
  exact ⟨by decide, fun _ _ h => by cases h⟩

/-- An equals sign is no connective. -/
theorem closes_equal {t : Token} (ht : t.kind = .symbol .equal) (level : Precedence)
    (rest : List Token) : Closes level (t :: rest) := by
  intro u hu l op hop
  cases hu
  rw [ht] at hop
  cases hop

end Grammar

end Scriptlet
