import Scriptlet.Proofs.Operations
import Scriptlet.Proofs.Provenance
import Scriptlet.Proofs.Relining
import Scriptlet.Proofs.Rescanning

/-! # Prefix notation tells expressions apart

Of expressions that were parsed, prefix notation leaves out the lines and nothing else. This is not so
for all trees: a variable could have a name with a blank in it, and a string a quote. It holds because
names, numbers and strings come from tokens. The scanner, set in front of prefix notation, therefore
finds the words of it again. An atom is one lexeme, since what follows it is a blank, a parenthesis or
nothing (`Cut.read_ended`). A branch begins with a parenthesis, which no atom does, and the token behind
that together with the number of arguments says which kind of node it is: one `-` has one argument and
the other has two.

Integers are written again in their shortest form, so `007` and `7` are the same tree and the same text.
Doubles are left out, for which this would need the laws of rounding.

## Main statement

* `prefixText_determines`: parsed expressions without doubles that are the same in prefix notation are
  the same up to lines.
-/

namespace Scriptlet

/-! ## The lexeme in front of a text -/

/-- A token in front of the text ends there. -/
def Ended (behind : List Char) : Prop :=
  ∀ stop ∈ behind.head?, Stops stop

/-- The end of the text ends a token. -/
theorem ended_nil : Ended [] := by
  intro stop h
  cases h

theorem ended_cons {stop : Char} (h : Stops stop) (behind : List Char) : Ended (stop :: behind) := by
  intro c hc
  cases hc
  exact h

theorem stops_rightParen : Stops ')' := by
  constructor <;> decide +kernel

/-- A token is read as it was written, where the text behind it ends it. -/
theorem Cut.read_ended {c : Char} {text behind : List Char} {kind : TokenKind} {literal : Option Value}
    (h : Spells (c :: text) (.token kind literal)) (hbehind : Ended behind) :
    read c (text ++ behind) = ⟨c :: text, behind, .token kind literal⟩ := by
  cases behind with
  | nil => rw [List.append_nil, read_alone h]
  | cons stop behind => exact read_stopped h (hbehind stop rfl) behind

section Unique

variable {text₁ text₂ behind₁ behind₂ : List Char} {kind₁ kind₂ : TokenKind}
  {literal₁ literal₂ : Option Value}

/-- A text begins with one token at most that ends there. -/
theorem Spells.unique (h₁ : Spells text₁ (.token kind₁ literal₁))
    (h₂ : Spells text₂ (.token kind₂ literal₂)) (hbehind₁ : Ended behind₁) (hbehind₂ : Ended behind₂)
    (h : text₁ ++ behind₁ = text₂ ++ behind₂) :
    (text₁ = text₂ ∧ kind₁ = kind₂ ∧ literal₁ = literal₂) ∧ behind₁ = behind₂ := by
  obtain _ | ⟨c₁, text₁⟩ := text₁
  · exact absurd rfl h₁.ne_nil
  obtain _ | ⟨c₂, text₂⟩ := text₂
  · exact absurd rfl h₂.ne_nil
  obtain ⟨rfl, hrest⟩ : c₁ = c₂ ∧ text₁ ++ behind₁ = text₂ ++ behind₂ := List.cons.inj h
  -- both are what the scanner cuts off here
  have hcut := Cut.read_ended h₁ hbehind₁
  rw [hrest, Cut.read_ended h₂ hbehind₂] at hcut
  cases hcut
  exact ⟨⟨rfl, rfl, rfl⟩, rfl⟩

end Unique

namespace Spells

variable {text : List Char} {literal : Option Value}

/-! ### What tokens of a kind are spelled like -/

/-- A number that has a token denotes an integer or a double. -/
theorem of_number (h : Spells text (.token .number literal)) :
    (∃ n, literal = some (.int n) ∧ n.toInt = decimal text) ∨ ∃ x, literal = some (.double x) := by
  cases h with
  | numeral h =>
    cases h with
    | integer _ hn => exact .inl ⟨_, rfl, hn⟩
    | fraction => exact .inr ⟨_, rfl⟩
  | symbol h | quoted h | word h => cases h

/-- A string is its body in quotes. -/
theorem of_string (h : Spells text (.token .string literal)) :
    ∃ body, text = '"' :: body ++ ['"'] ∧ literal = some (.string (String.ofList body)) := by
  cases h with
  | quoted h =>
    cases h with
    | closed => exact ⟨_, rfl, rfl⟩
  | symbol h | numeral h | word h => cases h

/-- A keyword is spelled in one way. -/
theorem of_keyword {k : Keyword} (h : Spells text (.token (.keyword k) literal)) :
    text = k.text.toList := by
  cases h with
  | word h =>
    cases h with
    | keyword => rfl
  | symbol h | quoted h | numeral h => cases h

/-- What begins with a parenthesis is a symbol. -/
theorem of_leftParen {r : Reading} (h : Spells ('(' :: text) r) : ∃ s, r = .token (.symbol s) none := by
  have hsymbol : SymbolText ('(' :: text) r := h.symbol_of_head (s := .leftParen) rfl
  generalize '(' :: text = source at hsymbol
  cases hsymbol with
  | mk s => exact ⟨s, rfl⟩

/-! ### Numbers in their shortest form -/

theorem decimal_toDigits (n : Nat) : decimal (Nat.toDigits 10 n) = n := by
  rw [← digitsValue_eq_decimal]
  exact Nat.ofDigitChars_toDigits (by decide) (by decide)

/-- The text of an integer that is not negative denotes it. -/
theorem of_int {n : Int64} (h : 0 ≤ n.toInt) :
    Spells (toString n.toInt).toList (.token .number (some (.int n))) := by
  have htext : (toString n.toInt).toList = Nat.toDigits 10 n.toInt.toNat := by
    rw [Int.toString_eq_repr, Int.repr_eq_if, if_pos h, Nat.toList_repr]
  have hdigits : IsDigits (Nat.toDigits 10 n.toInt.toNat) :=
    ⟨Nat.toDigits_ne_nil, fun c hc => Nat.isDigit_of_mem_toDigits (by decide) (by decide) hc⟩
  rw [htext]
  refine .numeral (.integer hdigits ?_)
  rw [decimal_toDigits, Int.toNat_of_nonneg h]

end Spells

/-! ## Trees without lines -/

namespace Expr

/-- The tree by itself, wherever its nodes stood. -/
def unlined (e : Expr) : Expr :=
  e.mapLines fun _ => 0

/-- The tree of a connective without lines. -/
theorem unlined_join (op : Connective) (line : Nat) (left right : Expr) :
    (op.join line left right).unlined = op.join 0 left.unlined right.unlined := by
  cases op <;> rfl

/-- What a token stands for hangs on its line in the line only. -/
theorem unlined_of_token {t₁ t₂ : Token} {e₁ e₂ : Expr} (h₁ : ofToken? t₁ = some e₁)
    (h₂ : ofToken? t₂ = some e₂) (h : t₁.form = t₂.form) : e₁.unlined = e₂.unlined := by
  obtain ⟨kind, lexeme, line₁, literal⟩ := t₁
  obtain ⟨kind₂, lexeme₂, line₂, literal₂⟩ := t₂
  cases h
  cases Grammar.atom_iff.mpr h₁ with
  | number hkind | string hkind | true_ hkind | false_ hkind | nil_ hkind | ident hkind =>
    obtain rfl : kind = _ := hkind
    cases h₂
    rfl

/-! ## Atoms -/

/-- Prefix notation writes the expression as the lexeme of a token that stands for it. -/
def Worded (e : Expr) : Prop :=
  ∃ t : Token, t.Spelled ∧ ofToken? t = some e ∧ t.lexeme = e.prefixText

/-- An expression that stands for a token, and is no double, can be written as one. -/
theorem worded_of_token {t : Token} {e : Expr} (ht : t.Spelled) (h : ofToken? t = some e)
    (hexact : e.exact = true) : e.Worded := by
  obtain ⟨kind, lexeme, line, literal⟩ := t
  have hspells : Spells lexeme.toList (.token kind literal) := ht
  -- one case for each kind of token that is an expression
  cases Grammar.atom_iff.mpr h with
  | number hkind =>
    obtain rfl : kind = _ := hkind
    rcases hspells.of_number with ⟨n, rfl, hn⟩ | ⟨x, rfl⟩
    · -- the number may have been written with more digits than it needs
      have hpositive : 0 ≤ n.toInt := by omega
      exact ⟨{ kind := .number, lexeme := toString n.toInt, line, literal := some (.int n) },
        Spells.of_int hpositive, rfl, rfl⟩
    · cases hexact
  | string hkind =>
    obtain rfl : kind = _ := hkind
    obtain ⟨body, htext, rfl⟩ := hspells.of_string
    refine ⟨_, ht, h, ?_⟩
    rw [← String.toList_inj, htext]
    simp [prefixText, Value.sourceText]
  | true_ hkind | false_ hkind | nil_ hkind =>
    obtain rfl : kind = _ := hkind
    exact ⟨_, ht, h, String.toList_inj.mp hspells.of_keyword⟩
  | ident hkind => exact ⟨_, ht, h, rfl⟩

/-! ## Branches -/

/-- The arguments of a branch, each with a blank in front of it. -/
def trail (args : List Expr) : List Char :=
  args.flatMap fun a => ' ' :: a.prefixText.toList

/-- The tree without lines that has the arguments, by the kind of the token in front of them. -/
def ofHead? (kind : TokenKind) : List Expr → Option Expr
  | [operand] =>
      match UnaryOp.ofToken? kind with
      | some op => some (.unary 0 op operand)
      | none => some (.group 0 operand)
  | [left, right] =>
      match Connective.ofToken? kind with
      | some op => some (op.join 0 left right)
      | none => some (.assign 0 left.prefixText right)
  | _ => none

/-- Prefix notation writes the expression in parentheses, as a token with arguments behind it, and
these determine the expression. -/
structure Branches (e : Expr) (kind : TokenKind) (head : String) (args : List Expr) : Prop where
  spells : Spells head.toList (.token kind none)
  text : e.prefixText.toList = '(' :: (head.toList ++ (trail args ++ [')']))
  nonempty : args ≠ []
  ofHead? : ofHead? kind (args.map unlined) = some e.unlined

/-- The head of a group is a name, like a variable. -/
theorem spells_group : Spells "group".toList (.token .identifier none) := by
  have hrest : ∀ d ∈ ['r', 'o', 'u', 'p'], isNameChar d = true :=
    List.all_eq_true.mp (by decide +kernel)
  refine .word (.name (by decide +kernel) hrest ?_)
  intro k
  cases k <;> decide

/-- A group is written as a branch with one argument. -/
theorem branches_group (line : Nat) (inner : Expr) :
    (group line inner).Branches .identifier "group" [inner] where
  spells := spells_group
  text := by simp [prefixText, trail]
  nonempty := List.cons_ne_nil _ _
  ofHead? := rfl

/-- An assignment has its target as the first argument. -/
theorem branches_assign (line : Nat) (name : String) (value : Expr) :
    (assign line name value).Branches (.symbol .equal) "=" [ident line name, value] where
  spells := .symbol (.mk .equal)
  text := by simp [prefixText, trail]
  nonempty := List.cons_ne_nil _ _
  ofHead? := rfl

/-- Prefix operators are written as they are in the source. -/
theorem unaryOp_spells (op : UnaryOp) :
    ∃ kind, UnaryOp.ofToken? kind = some op ∧ Spells op.symbol.toList (.token kind none) := by
  cases op with
  | negate => exact ⟨_, rfl, .symbol (.mk .minus)⟩
  | not => exact ⟨_, rfl, .symbol (.mk .bang)⟩

/-- A prefix operator is a branch with its operand. -/
theorem branches_unary (line : Nat) (op : UnaryOp) (operand : Expr) :
    ∃ kind, (unary line op operand).Branches kind op.symbol [operand] := by
  obtain ⟨kind, hop, hspells⟩ := unaryOp_spells op
  refine ⟨kind, hspells, ?_, List.cons_ne_nil _ _, ?_⟩
  · simp [prefixText, trail]
  · simp only [List.map_cons, List.map_nil, ofHead?, hop]
    rfl

/-- Every connective is written as the token that stands for it. -/
theorem connective_spells (op : Connective) : ∃ kind head, Connective.ofToken? kind = some op ∧
    Spells head.toList (.token kind none) ∧
    ∀ line left right, (op.join line left right).prefixText
      = "(" ++ head ++ " " ++ left.prefixText ++ " " ++ right.prefixText ++ ")" := by
  -- words such as `and` are keywords, and all the others are symbols
  have hsymbol (s : Symbol) : Spells s.text.toList (.token (.symbol s) none) := .symbol (.mk s)
  have hkeyword (k : Keyword) : Spells k.text.toList (.token (.keyword k) none) := .word (.keyword k)
  rcases op with op | op
  · cases op with
    | add => exact ⟨_, _, rfl, hsymbol .plus, fun _ _ _ => rfl⟩
    | subtract => exact ⟨_, _, rfl, hsymbol .minus, fun _ _ _ => rfl⟩
    | multiply => exact ⟨_, _, rfl, hsymbol .star, fun _ _ _ => rfl⟩
    | divide => exact ⟨_, _, rfl, hsymbol .slash, fun _ _ _ => rfl⟩
    | equal => exact ⟨_, _, rfl, hsymbol .equalEqual, fun _ _ _ => rfl⟩
    | notEqual => exact ⟨_, _, rfl, hsymbol .bangEqual, fun _ _ _ => rfl⟩
    | less => exact ⟨_, _, rfl, hsymbol .less, fun _ _ _ => rfl⟩
    | lessEqual => exact ⟨_, _, rfl, hsymbol .lessEqual, fun _ _ _ => rfl⟩
    | greater => exact ⟨_, _, rfl, hsymbol .greater, fun _ _ _ => rfl⟩
    | greaterEqual => exact ⟨_, _, rfl, hsymbol .greaterEqual, fun _ _ _ => rfl⟩
  · cases op with
    | and => exact ⟨_, _, rfl, hkeyword .and_, fun _ _ _ => rfl⟩
    | or => exact ⟨_, _, rfl, hkeyword .or_, fun _ _ _ => rfl⟩

/-- A connective is a branch with both operands. -/
theorem branches_join (op : Connective) (line : Nat) (left right : Expr) :
    ∃ kind head, (op.join line left right).Branches kind head [left, right] := by
  obtain ⟨kind, head, hop, hspells, htext⟩ := connective_spells op
  refine ⟨kind, head, hspells, ?_, List.cons_ne_nil _ _, ?_⟩
  · simp [htext, trail]
  · simp only [List.map_cons, List.map_nil, ofHead?, hop, unlined_join]

/-- Expressions that are written with tokens, blanks and parentheses. -/
inductive Legible : Expr → Prop where
  | atom {e : Expr} (h : e.Worded) : Legible e
  | branch {e : Expr} {kind : TokenKind} {head : String} {args : List Expr}
      (h : e.Branches kind head args) (hargs : ∀ a ∈ args, Legible a) : Legible e

/-- A connective has no doubles if its operands have none. -/
theorem exact_join {op : Connective} {line : Nat} {left right : Expr} :
    (op.join line left right).exact = true ↔ left.exact = true ∧ right.exact = true := by
  cases op <;> exact Bool.and_eq_true_iff

theorem Legible.pair {left right : Expr} (hleft : left.Legible) (hright : right.Legible) :
    ∀ a ∈ [left, right], a.Legible :=
  List.forall_mem_cons.mpr ⟨hleft, List.forall_mem_singleton.mpr hright⟩

/-- Made of tokens, an expression is written with tokens. -/
theorem MadeOf.legible {e : Expr} (h : e.MadeOf Token.Spelled) (hexact : e.exact = true) :
    e.Legible := by
  induction h with
  | atom ht h => exact .atom (worded_of_token ht h hexact)
  | @group line inner _ ih =>
    exact .branch (branches_group line inner) (List.forall_mem_singleton.mpr (ih hexact))
  | @unary line op operand _ ih =>
    obtain ⟨kind, h⟩ := branches_unary line op operand
    exact .branch h (List.forall_mem_singleton.mpr (ih hexact))
  | @join line op left right _ _ ihleft ihright =>
    obtain ⟨kind, head, h⟩ := branches_join op line left right
    obtain ⟨hleft, hright⟩ := exact_join.mp hexact
    exact .branch h (.pair (ihleft hleft) (ihright hright))
  | @assign t line name value ht h _ ih =>
    -- the name to which is assigned is the first argument
    have hname : (ident line name).Legible := .atom (worded_of_token ht h rfl)
    exact .branch (branches_assign line name value) (.pair hname (ih hexact))

/-! ## One reading only -/

/-- A token in front of arguments ends at a blank or a parenthesis. -/
theorem ended_trail (args : List Expr) (behind : List Char) :
    Ended (trail args ++ ')' :: behind) := by
  cases args with
  | nil => exact ended_cons stops_rightParen _
  | cons a args => exact ended_cons stops_blank _

/-- A branch in front of a text, taken apart. -/
theorem Branches.append {e : Expr} {kind : TokenKind} {head : String} {args : List Expr}
    (h : e.Branches kind head args) (behind : List Char) :
    e.prefixText.toList ++ behind = '(' :: (head.toList ++ (trail args ++ ')' :: behind)) := by
  rw [h.text]
  simp

/-- No atom begins with a parenthesis. -/
theorem Worded.ne_leftParen {e : Expr} (h : e.Worded) (behind rest : List Char) :
    e.prefixText.toList ++ behind ≠ '(' :: rest := by
  obtain ⟨t, ht, hof, htext⟩ := h
  intro hparen
  unfold Token.Spelled at ht
  rw [← htext] at hparen
  cases hlexeme : t.lexeme.toList with
  | nil => exact ht.ne_nil hlexeme
  | cons c text =>
    rw [hlexeme] at ht hparen
    obtain ⟨rfl, -⟩ := List.cons.inj hparen
    -- what begins so is a symbol, and no symbol stands for an expression
    obtain ⟨s, hr⟩ := ht.of_leftParen
    have hkind : t.kind = .symbol s := (Reading.token.inj hr).1
    simp [ofToken?, hkind] at hof

/-- Where the expression begins a text, another one that begins it too is the same up to lines and ends
at the same place. -/
def Readable (e : Expr) : Prop :=
  ∀ ⦃e' : Expr⦄, e'.Legible → ∀ ⦃behind behind' : List Char⦄, Ended behind → Ended behind' →
    e.prefixText.toList ++ behind = e'.prefixText.toList ++ behind' →
      e.unlined = e'.unlined ∧ behind = behind'

/-- A token in front of a text can be read in one way. -/
theorem Worded.readable {e : Expr} (h : e.Worded) : e.Readable := by
  intro e' h' behind behind' hbehind hbehind' htexts
  cases h' with
  | branch h' _ =>
    rw [h'.append] at htexts
    exact absurd htexts (h.ne_leftParen _ _)
  | atom h' =>
    -- both are lexemes of tokens, and the scanner tells which
    obtain ⟨t, ht, hof, htext⟩ := h
    obtain ⟨t', ht', hof', htext'⟩ := h'
    rw [← htext, ← htext'] at htexts
    obtain ⟨⟨hlexeme, hkind, hliteral⟩, hbehinds⟩ := Spells.unique ht ht' hbehind hbehind' htexts
    have hform : t.form = t'.form := by
      rw [Token.form, Token.form, hkind, hliteral, String.toList_inj.mp hlexeme]
    exact ⟨unlined_of_token hof hof' hform, hbehinds⟩

/-- The arguments are read one after the other, up to the parenthesis that closes the branch. -/
theorem trail_unique {args args' : List Expr} (hargs : ∀ a ∈ args, a.Readable)
    (hargs' : ∀ a ∈ args', a.Legible) {behind behind' : List Char}
    (h : trail args ++ ')' :: behind = trail args' ++ ')' :: behind') :
    args.map unlined = args'.map unlined ∧ behind = behind' := by
  induction args generalizing args' with
  | nil =>
    cases args' with
    | nil => exact ⟨rfl, (List.cons.inj h).2⟩
    | cons a' args' => exact absurd (List.cons.inj h).1 (by decide)
  | cons a args ih =>
    cases args' with
    | nil => exact absurd (List.cons.inj h).1 (by decide)
    | cons a' args' =>
      obtain ⟨ha, hargs⟩ := List.forall_mem_cons.mp hargs
      obtain ⟨ha', hargs'⟩ := List.forall_mem_cons.mp hargs'
      have htexts : a.prefixText.toList ++ (trail args ++ ')' :: behind)
          = a'.prefixText.toList ++ (trail args' ++ ')' :: behind') := by
        simpa [trail] using h
      -- a blank or the parenthesis follows on both sides, so both first arguments end there
      obtain ⟨hfirst, hrest⟩ := ha ha' (ended_trail args behind) (ended_trail args' behind') htexts
      obtain ⟨hmap, hbehind⟩ := ih hargs hargs' hrest
      exact ⟨by rw [List.map_cons, List.map_cons, hfirst, hmap], hbehind⟩

/-- A branch can be read in one way if its arguments can: its head tells what it is made of. -/
theorem Branches.readable {e : Expr} {kind : TokenKind} {head : String} {args : List Expr}
    (h : e.Branches kind head args) (hargs : ∀ a ∈ args, a.Readable) : e.Readable := by
  intro e' h' behind behind' _ _ htexts
  rw [h.append] at htexts
  cases h' with
  | atom h' => exact absurd htexts.symm (h'.ne_leftParen _ _)
  | @branch _ kind' head' args' h' hargs' =>
    rw [h'.append] at htexts
    -- the token in front, then the arguments
    obtain ⟨⟨-, hkind, -⟩, hrest⟩ := Spells.unique h.spells h'.spells (ended_trail args behind)
      (ended_trail args' behind') (List.cons.inj htexts).2
    obtain ⟨hmap, hbehind⟩ := trail_unique hargs hargs' hrest
    have hsame : some e.unlined = some e'.unlined := by
      rw [← h.ofHead?, ← h'.ofHead?, hkind, hmap]
    exact ⟨Option.some.inj hsame, hbehind⟩

/-- Whatever is written in this way can be read in one way. -/
theorem Legible.readable {e : Expr} (h : e.Legible) : e.Readable := by
  induction h with
  | atom h => exact h.readable
  | branch h _ ih => exact h.readable ih

end Expr

/-! ## Parsed expressions -/

/-- One of the two parsers gives the expression for the text, as it is or as a part of another one. -/
def ParsedFrom (source : String) (e : Expr) : Prop :=
  ∃ whole, (whole ∈ Stmt.expressionsOfAll (parseProgram (scan source).tokens).result ∨
    (parseExpression (scan source).tokens).result = some whole) ∧ e ∈ whole.parts

/-- A parsed expression is made of tokens that are spelled as lexemes. -/
theorem ParsedFrom.madeOf {source : String} {e : Expr} (h : ParsedFrom source e) :
    e.MadeOf Token.Spelled := by
  have htokens : ∀ t ∈ (scan source).tokens, t.kind ≠ .endOfInput → t.Spelled := by
    intro t ht hkind
    exact spelled_of_mem_words (List.mem_filter.mpr ⟨ht, decide_eq_true hkind⟩)
  obtain ⟨whole, hwhole, hpart⟩ := h
  rcases hwhole with hprogram | hlone
  · exact (parseProgram_madeOf htokens hprogram).of_mem_parts hpart
  · exact (parseExpression_madeOf htokens hlone).of_mem_parts hpart

/-- Prefix notation identifies a parsed expression. Two expressions without doubles, each given by
either of the parsers for some text, with or without errors in it, are the same up to the lines of their
nodes if they are the same in prefix notation. -/
theorem prefixText_determines {source₁ source₂ : String} {e₁ e₂ : Expr} (h₁ : ParsedFrom source₁ e₁)
    (h₂ : ParsedFrom source₂ e₂) (hexact₁ : e₁.exact = true) (hexact₂ : e₂.exact = true)
    (htext : e₁.prefixText = e₂.prefixText) : e₁.unlined = e₂.unlined := by
  have hlegible₁ := h₁.madeOf.legible hexact₁
  have hlegible₂ := h₂.madeOf.legible hexact₂
  have htexts : e₁.prefixText.toList ++ [] = e₂.prefixText.toList ++ [] := by rw [htext]
  exact (hlegible₁.readable hlegible₂ ended_nil ended_nil htexts).1

/-- The descending parser after an error and the climbing parser, on lines of different lengths: one
sign in front of its operand and one between two of them, zeros that no number needs, and a string that
looks like the end of a branch. -/
theorem prefixText_determines_layouts :
    let source₁ := "var; x = -007 - \"a) (b\";"
    let source₂ := "x\n=\n-7\n- // minus\n\"a) (b\""
    let e₁ := Expr.assign 1 "x" (.binary 1 .subtract (.unary 1 .negate (.literal 1 (.int 7)))
      (.literal 1 (.string "a) (b")))
    let e₂ := Expr.assign 1 "x" (.binary 4 .subtract (.unary 3 .negate (.literal 3 (.int 7)))
      (.literal 5 (.string "a) (b")))
    ParsedFrom source₁ e₁ ∧ ParsedFrom source₂ e₂ ∧
      e₁.prefixText = "(= x (- (- 7) \"a) (b\"))" ∧ e₁.prefixText = e₂.prefixText ∧
      e₁.unlined = e₂.unlined := by
  intro source₁ source₂ e₁ e₂
  have h₁ : ParsedFrom source₁ e₁ := ⟨e₁, .inl (by decide +kernel), e₁.mem_parts_self⟩
  have h₂ : ParsedFrom source₂ e₂ := ⟨e₂, .inr (by decide +kernel), e₂.mem_parts_self⟩
  have htext : e₁.prefixText = e₂.prefixText := rfl
  exact ⟨h₁, h₂, by decide, htext, prefixText_determines h₁ h₂ rfl rfl htext⟩

end Scriptlet
