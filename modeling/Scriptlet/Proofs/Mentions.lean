import Mathlib.Data.Finset.Card
import Scriptlet.Proofs.Failures
import Scriptlet.Proofs.ScopeDiscipline

/-! # Mentions of constants

Which constants a program for the pool machine needs can be read off its text. A literal number or
string is a mention of its value, and an access to a variable is a mention of the variable's name,
unless the variable is local; `Program.mentions` lists the mentions in the order of evaluation. Every
literal has a constant of its own, also where the pool already has an equal one. A name has a constant
from its first mention on, which all its later mentions share, but which a literal of the same text
does not. So a constant is added for the first mentions (`Mention.firsts`), and `length_firsts` counts
them: the literals, and the different names.

A variable is local where a block around it has declared its name before. The blocks are those of the
text, and a declaration counts from its place in the text on, even if it is a branch that is not taken.
-/

namespace Scriptlet

/-! ## Mentions -/

/-- Do literals of this value have a constant? There are instructions for the other values. -/
def Value.hasConstant (v : Value) : Bool :=
  match v.kind with
  | .int | .double | .string => true
  | .bool | .nil => false

/-- A place in a program that needs a constant: a literal, or a global variable. -/
inductive Mention where
  | literal (v : Value)
  | fetch (name : String)
  | store (name : String)
  | define (name : String)
deriving DecidableEq, Repr

namespace Mention

/-- The instruction for a mention. -/
def op : Mention → PoolOp
  | literal _ => .constant
  | fetch _ => .getGlobal
  | store _ => .setGlobal
  | define _ => .defineGlobal

/-- The constant that a mention needs. -/
def value : Mention → Value
  | literal v => v
  | fetch name => .string name
  | store name => .string name
  | define name => .string name

/-- The global variable that is mentioned, if it is one. -/
def name? : Mention → Option String
  | literal _ => none
  | fetch name => some name
  | store name => some name
  | define name => some name

/-- The literal that is mentioned, if it is one. -/
def literal? : Mention → Option Value
  | literal v => some v
  | _ => none

/-- Do both mention the same global variable? -/
def shares (m other : Mention) : Bool :=
  m.name?.isSome && m.name? == other.name?

/-- The mentions that a constant is added for: every literal, and the first mention of each name. -/
def firsts (ms : List Mention) : List Mention :=
  ms.foldl (fun firsts m => if firsts.any m.shares then firsts else firsts ++ [m]) []

/-- A literal is a mention if it has a constant. -/
def ofLiteral (v : Value) : List Mention :=
  if v.hasConstant then [literal v] else []

/-- An access to a variable is a mention unless the variable is local. -/
def ofAccess (locals : List String) (name : String) (m : Mention) : List Mention :=
  if name ∈ locals then [] else [m]

end Mention

/-- The names declared so far in each open block, the innermost block first. -/
abbrev Blocks := List (List String)

namespace Blocks

/-- Declares names in the innermost block, one after the other. Outside of all blocks they are global
and belong to none. -/
def declare (names : List String) : Blocks → Blocks
  | [] => []
  | here :: outer => (names.reverse ++ here) :: outer

/-- A declaration is a mention outside of all blocks. -/
def mentionsOfDeclaration (blocks : Blocks) (name : String) : List Mention :=
  if blocks.isEmpty then [.define name] else []

theorem declare_nil (blocks : Blocks) : blocks.declare [] = blocks := by
  cases blocks <;> rfl

/-- Names can be declared in two parts. -/
theorem declare_append (names names' : List String) (blocks : Blocks) :
    blocks.declare (names ++ names') = (blocks.declare names).declare names' := by
  cases blocks with
  | nil => rfl
  | cons here outer => simp [declare]

end Blocks

/-- The mentions in an expression, where some names are local. -/
def Expr.mentions (locals : List String) : Expr → List Mention
  | literal _ value => Mention.ofLiteral value
  | group _ inner => inner.mentions locals
  | unary _ _ operand => operand.mentions locals
  | binary _ _ left right => left.mentions locals ++ right.mentions locals
  | ident _ name => Mention.ofAccess locals name (.fetch name)
  | assign _ name value => value.mentions locals ++ Mention.ofAccess locals name (.store name)
  | logical _ _ left right => left.mentions locals ++ right.mentions locals

mutual

/-- The mentions in a statement that stands in some blocks. -/
def Stmt.mentions (blocks : Blocks) : Stmt → List Mention
  | .print _ value => value.mentions blocks.flatten
  | .expression _ value => value.mentions blocks.flatten
  | .var _ name none => blocks.mentionsOfDeclaration name
  | .var _ name (some initial) =>
      initial.mentions blocks.flatten ++ blocks.mentionsOfDeclaration name
  | .block _ body => Stmt.mentionsOfAll ([] :: blocks) body
  | .ifThen _ condition yes none => condition.mentions blocks.flatten ++ yes.mentions blocks
  | .ifThen _ condition yes (some no) =>
      condition.mentions blocks.flatten
        ++ (yes.mentions blocks ++ no.mentions (blocks.declare yes.declared))
  | .whileDo _ condition body => condition.mentions blocks.flatten ++ body.mentions blocks

/-- The mentions in a sequence of statements: what one of them declares is known to the next. -/
def Stmt.mentionsOfAll (blocks : Blocks) : List Stmt → List Mention
  | [] => []
  | st :: rest => st.mentions blocks ++ Stmt.mentionsOfAll (blocks.declare st.declared) rest

end

/-- What the first branch declares is known in the second one. -/
theorem Stmt.mentions_ifThen (blocks : Blocks) (line : Nat) (condition : Expr) (yes : Stmt)
    (no : Option Stmt) :
    (Stmt.ifThen line condition yes no).mentions blocks
      = condition.mentions blocks.flatten ++ (yes.mentions blocks
        ++ no.elim [] (Stmt.mentions (blocks.declare yes.declared))) := by
  cases no with
  | none =>
    rw [Stmt.mentions, Option.elim_none, List.append_nil]
  | some no =>
    rw [Stmt.mentions]
    rfl

theorem Stmt.declared_ifThen (line : Nat) (condition : Expr) (yes : Stmt) (no : Option Stmt) :
    (Stmt.ifThen line condition yes no).declared = yes.declared ++ no.elim [] Stmt.declared := by
  cases no with
  | none =>
    rw [Stmt.declared, Option.elim_none, List.append_nil]
  | some no =>
    rw [Stmt.declared]
    rfl

/-- The constant of an expression that is a literal, if it has one. -/
def Expr.constant? : Expr → Option Value
  | literal _ v => if v.hasConstant then some v else none
  | _ => none

namespace Program

/-- The mentions in a program. -/
def mentions (p : Program) : List Mention :=
  Stmt.mentionsOfAll [] p

/-- The global variables that a program mentions, once for each mention. -/
def globals (p : Program) : List String :=
  p.mentions.filterMap Mention.name?

/-- The literals of a program that have a constant. -/
def literals (p : Program) : List Value :=
  ((Stmt.expressionsOfAll p).flatMap Expr.parts).filterMap Expr.constant?

end Program

/-! ## Literals -/

section Literals

open Mention (literal?)

/-- No access to a variable is a literal. -/
theorem literal?_ofAccess (locals : List String) (name : String) {m : Mention}
    (hm : m.literal? = none) : (Mention.ofAccess locals name m).filterMap literal? = [] := by
  unfold Mention.ofAccess
  split
  · rfl
  · simp [hm]

theorem literal?_mentionsOfDeclaration (blocks : Blocks) (name : String) :
    (blocks.mentionsOfDeclaration name).filterMap literal? = [] := by
  unfold Blocks.mentionsOfDeclaration
  split <;> rfl

/-- The literals among the mentions in an expression are the literals in it. -/
theorem Expr.literals_mentions (locals : List String) (e : Expr) :
    (e.mentions locals).filterMap literal? = e.parts.filterMap Expr.constant? := by
  induction e with
  | literal line v =>
    rw [mentions, parts, Mention.ofLiteral]
    cases hv : v.hasConstant <;> simp [constant?, literal?, hv]
  | group line inner ih => exact ih
  | unary line op operand ih => exact ih
  | binary line op left right ihLeft ihRight =>
    rw [mentions, parts, List.filterMap_append, ihLeft, ihRight, ← List.filterMap_append]
    rfl
  | ident line name => exact literal?_ofAccess locals name rfl
  | assign line name value ih =>
    rw [mentions, parts, List.filterMap_append, ih, literal?_ofAccess locals name rfl,
      List.append_nil]
    rfl
  | logical line op left right ihLeft ihRight =>
    rw [mentions, parts, List.filterMap_append, ihLeft, ihRight, ← List.filterMap_append]
    rfl

mutual

/-- The literals that a statement mentions are the constants of its expressions, in their order. -/
theorem Stmt.literals_mentions (blocks : Blocks) (st : Stmt) :
    (st.mentions blocks).filterMap literal?
      = (st.expressions.flatMap Expr.parts).filterMap Expr.constant? := by
  -- scopes decide which names are local, and no literal depends on them
  match st with
  | .print _ value =>
    simp [Stmt.mentions, Stmt.expressions, Expr.literals_mentions]
  | .expression _ value =>
    simp [Stmt.mentions, Stmt.expressions, Expr.literals_mentions]
  | .var _ name none =>
    simp [Stmt.mentions, Stmt.expressions, literal?_mentionsOfDeclaration]
  | .var _ name (some initial) =>
    simp [Stmt.mentions, Stmt.expressions, Expr.literals_mentions, literal?_mentionsOfDeclaration]
  | .block _ body =>
    rw [Stmt.mentions, Stmt.expressions]
    exact Stmt.literals_mentionsOfAll ([] :: blocks) body
  | .ifThen _ condition yes none =>
    simp [Stmt.mentions, Stmt.expressions, Expr.literals_mentions,
      Stmt.literals_mentions blocks yes]
  | .ifThen _ condition yes (some no) =>
    simp [Stmt.mentions, Stmt.expressions, Expr.literals_mentions,
      Stmt.literals_mentions blocks yes,
      Stmt.literals_mentions (blocks.declare yes.declared) no]
  | .whileDo _ condition body =>
    simp [Stmt.mentions, Stmt.expressions, Expr.literals_mentions,
      Stmt.literals_mentions blocks body]

theorem Stmt.literals_mentionsOfAll (blocks : Blocks) (sts : List Stmt) :
    (Stmt.mentionsOfAll blocks sts).filterMap literal?
      = ((Stmt.expressionsOfAll sts).flatMap Expr.parts).filterMap Expr.constant? := by
  match sts with
  | [] => rfl
  | st :: rest =>
    simp [Stmt.mentionsOfAll, Stmt.expressionsOfAll, Stmt.literals_mentions blocks st,
      Stmt.literals_mentionsOfAll (blocks.declare st.declared) rest]

end

end Literals

/-! ## First mentions -/

namespace Mention

variable {m other third : Mention} {name : String}

/-- Two mentions share a constant if they are of one global variable. -/
theorem shares_iff :
    m.shares other = true ↔ ∃ name, m.name? = some name ∧ other.name? = some name := by
  unfold shares
  cases hm : m.name? with
  | none => simp
  | some name =>
    rw [Option.isSome_some, Bool.true_and, beq_iff_eq]
    constructor
    · intro h
      exact ⟨name, rfl, h.symm⟩
    · rintro ⟨_, ⟨⟩, h⟩
      exact h.symm

theorem shares_comm (m other : Mention) : m.shares other = other.shares m := by
  rw [Bool.eq_iff_iff, shares_iff, shares_iff]
  constructor
  · rintro ⟨name, hm, hother⟩
    exact ⟨name, hother, hm⟩
  · rintro ⟨name, hother, hm⟩
    exact ⟨name, hm, hother⟩

theorem shares_trans (h : m.shares other = true) (h' : other.shares third = true) :
    m.shares third = true := by
  obtain ⟨name, hm, hother⟩ := shares_iff.mp h
  obtain ⟨name', hother', hthird⟩ := shares_iff.mp h'
  rw [hother] at hother'
  cases hother'
  exact shares_iff.mpr ⟨name, hm, hthird⟩

theorem value_of_name? (h : m.name? = some name) : m.value = .string name := by
  cases m with
  | literal v => cases h
  | fetch _ | store _ | define _ =>
    cases h
    rfl

/-- A mention adds a constant if it shares none with those before it. -/
theorem firsts_concat (ms : List Mention) (m : Mention) :
    firsts (ms ++ [m]) = if (firsts ms).any m.shares then firsts ms else firsts ms ++ [m] := by
  unfold firsts
  rw [List.foldl_append]
  rfl

/-- What shares a constant with some mention shares it with a first one. -/
theorem any_firsts (ms : List Mention) (m : Mention) :
    (firsts ms).any m.shares = ms.any m.shares := by
  -- from the end, as a mention is compared to those before it
  induction ms using List.reverseRecOn generalizing m with
  | nil => rfl
  | append_singleton ms last ih =>
    rw [firsts_concat]
    by_cases hlast : (firsts ms).any last.shares = true
    · -- The last mention is no first one, but what it shares a constant with comes before it.
      rw [if_pos hlast, List.any_append, ih]
      rw [ih, List.any_eq_true] at hlast
      obtain ⟨earlier, hearlier, hshares⟩ := hlast
      cases hm : m.shares last with
      | false => simp [hm]
      | true =>
        have hany : ms.any m.shares = true :=
          List.any_eq_true.mpr ⟨earlier, hearlier, shares_trans hm hshares⟩
        rw [hany]
        rfl
    · rw [if_neg hlast, List.any_append, List.any_append, ih]

/-- There are as many first mentions as literals and different names. -/
theorem length_firsts (ms : List Mention) :
    (firsts ms).length
      = (ms.filterMap literal?).length + (ms.filterMap name?).toFinset.card := by
  induction ms using List.reverseRecOn with
  | nil => rfl
  | append_singleton ms m ih =>
    rw [firsts_concat, any_firsts, List.filterMap_append, List.filterMap_append,
      List.toFinset_append]
    cases hname : m.name? with
    | none =>
      -- A literal shares with nothing and is always counted.
      have hshares : ms.any m.shares = false := by
        simp [shares, hname]
      have hliteral : [m].filterMap literal? = [m.value] := by
        cases m with
        | literal v => rfl
        | fetch _ | store _ | define _ => cases hname
      have hnames : [m].filterMap name? = [] := by simp [hname]
      rw [hshares, hliteral, hnames]
      simp [ih]
      omega
    | some name =>
      have hliteral : [m].filterMap literal? = [] := by
        cases m with
        | literal v => cases hname
        | fetch _ | store _ | define _ => rfl
      have hnames : [m].filterMap name? = [name] := by simp [hname]
      have hshares : ms.any m.shares = true ↔ name ∈ (ms.filterMap name?).toFinset := by
        simp [shares_iff, hname]
      rw [hliteral, hnames]
      -- A name is counted if it is a new one.
      by_cases hmem : name ∈ (ms.filterMap name?).toFinset
      · rw [if_pos (hshares.mpr hmem)]
        simpa [Finset.insert_eq_of_mem hmem] using ih
      · rw [if_neg (hshares.not.mpr hmem)]
        simp [Finset.card_insert_of_notMem hmem, ih]
        omega

end Mention

end Scriptlet
