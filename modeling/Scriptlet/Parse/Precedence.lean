import Scriptlet.Syntax.Expr

/-! # Precedence

How tightly operators bind. The connectives are the operators that stand between two operands; each
belongs to one level of precedence, and all of them group to the left.
-/

namespace Scriptlet

/-- The levels of precedence, the loosest first. -/
inductive Precedence where
  | none
  | assignment
  | or
  | and
  | equality
  | comparison
  | term
  | factor
  | unary
  | primary
deriving DecidableEq, Repr

namespace Precedence

/-- The place of a level in the order of precedence. -/
def rank : Precedence → Nat
  | none => 0
  | assignment => 1
  | or => 2
  | and => 3
  | equality => 4
  | comparison => 5
  | term => 6
  | factor => 7
  | unary => 8
  | primary => 9

instance : LE Precedence where
  le p q := p.rank ≤ q.rank

instance (p q : Precedence) : Decidable (p ≤ q) :=
  inferInstanceAs (Decidable (p.rank ≤ q.rank))

/-- The next tighter level; the tightest level is its own. -/
def next : Precedence → Precedence
  | none => assignment
  | assignment => or
  | or => and
  | and => equality
  | equality => comparison
  | comparison => term
  | term => factor
  | factor => unary
  | unary => primary
  | primary => primary

/-- The levels of the connectives, the loosest first. -/
def connectiveLevels : List Precedence :=
  [or, and, equality, comparison, term, factor]

end Precedence

/-- An operator between two operands. -/
inductive Connective where
  | binary (op : BinaryOp)
  | logical (op : LogicalOp)
deriving DecidableEq, Repr

namespace Connective

/-- The connective that a token stands for. -/
def ofToken? (kind : TokenKind) : Option Connective :=
  match BinaryOp.ofToken? kind with
  | some op => some (binary op)
  | none => (LogicalOp.ofToken? kind).map logical

/-- The level of precedence of a connective. -/
def precedence : Connective → Precedence
  | logical .or => .or
  | logical .and => .and
  | binary .equal | binary .notEqual => .equality
  | binary .less | binary .lessEqual | binary .greater | binary .greaterEqual => .comparison
  | binary .add | binary .subtract => .term
  | binary .multiply | binary .divide => .factor

/-- The expression that joins two operands, at the line of the connective. -/
def join (op : Connective) (line : Nat) (left right : Expr) : Expr :=
  match op with
  | binary op => .binary line op left right
  | logical op => .logical line op left right

/-- The connective of exactly the given level that a token stands for. -/
def ofLevel? (level : Precedence) (kind : TokenKind) : Option Connective :=
  (ofToken? kind).filter fun op => op.precedence = level

/-- The connective of the given or a tighter level that a token stands for. -/
def ofLevelUp? (level : Precedence) (kind : TokenKind) : Option Connective :=
  (ofToken? kind).filter fun op => decide (level ≤ op.precedence)

end Connective

/-- The expression that a single token stands for. A literal token without a value denotes nil. -/
def Expr.ofToken? (t : Token) : Option Expr :=
  match t.kind with
  | .number | .string => some (.literal t.line (t.literal.getD .nil))
  | .keyword .true_ => some (.literal t.line (.bool true))
  | .keyword .false_ => some (.literal t.line (.bool false))
  | .keyword .nil_ => some (.literal t.line .nil)
  | .identifier => some (.ident t.line t.lexeme)
  | _ => none

end Scriptlet
