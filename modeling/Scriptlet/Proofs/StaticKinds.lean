import Scriptlet.Proofs.Failures
import Scriptlet.Proofs.WellFormed
import Scriptlet.Proofs.Operations
import Scriptlet.Proofs.Sequencing
import Scriptlet.Run.Eval

/-! # Static kinds are sound

Generation knows the kinds of some operands before anything runs. It knows them from its own rules, which
are not those of the evaluator. Here the two are compared: a static kind that is known is the kind of
every value that the expression ever has, and an operation that is refused for the kinds of its operands
has a value in no environment.

A machine that does not know strings would refuse to join them, which the evaluator does. That it never
refuses an operation for being one on strings is because it has no code for string literals, so that no
kind is ever known to be `string` there.

## Main statement

* `static_kinds_sound`: both halves, for each of the two machines.
-/

namespace Scriptlet

/-! ## Operations that succeed -/

/-- The opposite of a value has the kind of the value, which is a number's. -/
theorem UnaryOp.negate_kinds {line : Nat} {v w : Value} (h : UnaryOp.negate.apply line v = .ok w) :
    (v.kind = .int ∨ v.kind = .double) ∧ w.kind = v.kind := by
  cases v with
  | int n =>
    rcases exactInt_int h with ⟨m, rfl⟩
    exact ⟨.inl rfl, rfl⟩
  | double x =>
    cases h
    exact ⟨.inr rfl, rfl⟩
  | bool _ | string _ | nil => cases h

namespace BinaryOp

/-- Integers give integers or truth values. -/
theorem applyInt_kind {op : BinaryOp} {line : Nat} {m n : Int64} {v : Value}
    (h : op.applyInt line m n = .ok v) :
    v.kind = if op.isArithmetic then .int else .bool := by
  cases op with
  | add | subtract | multiply | divide =>
    rcases applyInt_int rfl h with ⟨w, rfl⟩
    rfl
  | equal | notEqual | less | lessEqual | greater | greaterEqual =>
    cases h
    rfl

/-- Doubles give doubles or truth values. -/
theorem applyDouble_kind {op : BinaryOp} {line : Nat} {x y : Float} {v : Value}
    (h : op.applyDouble line x y = .ok v) :
    v.kind = if op.isArithmetic then .double else .bool := by
  cases op with
  | divide =>
    simp only [applyDouble] at h
    split at h
    · cases h
    · cases h
      rfl
  | add | subtract | multiply | equal | notEqual | less | lessEqual | greater | greaterEqual =>
    cases h
    rfl

/-- What an operation that succeeds was given and what it gives: it asks for equality, it joins two
strings, or it has two numbers of one kind. -/
theorem apply_kinds {op : BinaryOp} {line : Nat} {v w u : Value} (h : op.apply line v w = .ok u) :
    ((op = .equal ∨ op = .notEqual) ∧ u.kind = .bool) ∨
      (op = .add ∧ v.kind = .string ∧ w.kind = .string ∧ u.kind = .string) ∨
      ((v.kind = .int ∨ v.kind = .double) ∧ w.kind = v.kind ∧
        u.kind = if op.isArithmetic then v.kind else .bool) := by
  unfold apply at h
  split at h
  · cases h
    exact .inl ⟨.inl rfl, rfl⟩
  · cases h
    exact .inl ⟨.inr rfl, rfl⟩
  · exact .inr (.inr ⟨.inl rfl, rfl, applyInt_kind h⟩)
  · exact .inr (.inr ⟨.inr rfl, rfl, applyDouble_kind h⟩)
  · cases h
    exact .inr (.inl ⟨rfl, rfl, rfl, rfl⟩)
  · cases h

end BinaryOp

/-! ## What a static kind says of a value -/

namespace StaticKind

variable {kind left right : StaticKind} {v w u : Value} {line : Nat}

/-- Is the value of this kind, as far as the kind is known? -/
def Fits (kind : StaticKind) (v : Value) : Prop :=
  kind = .unknown ∨ kind = .known v.kind

theorem Fits.of_kind_eq (h : kind.Fits v) (hkind : w.kind = v.kind) : kind.Fits w := by
  unfold Fits
  rw [hkind]
  exact h

/-- A unary operation that succeeds is let through, with a kind that fits. -/
theorem ofUnary?_of_apply {op : UnaryOp} (hv : kind.Fits v) (h : op.apply line v = .ok w) :
    ∃ result, ofUnary? op kind = some result ∧ result.Fits w := by
  cases op with
  | not =>
    cases h
    exact ⟨_, rfl, .inr rfl⟩
  | negate =>
    rcases UnaryOp.negate_kinds h with ⟨hnumber, hkind⟩
    refine ⟨kind, ?_, hv.of_kind_eq hkind⟩
    rcases hv with rfl | rfl
    · rfl
    · rcases hnumber with hv | hv <;> rw [hv] <;> rfl

/-- Two numbers of one kind: arithmetic keeps the kind, and comparisons give truth values. -/
theorem ofBinary?_numbers {k : Kind} (hk : k = .int ∨ k = .double) (strings : Bool) {op : BinaryOp}
    (hop : op ≠ .equal ∧ op ≠ .notEqual) (hleft : left = .unknown ∨ left = .known k)
    (hright : right = .unknown ∨ right = .known k) :
    ofBinary? strings op left right =
      some (if op.isArithmetic then (if left = .unknown then right else left) else .known .bool) := by
  rcases hk with rfl | rfl <;> rcases hleft with rfl | rfl <;> rcases hright with rfl | rfl <;>
    cases op with
    | equal => exact absurd rfl hop.1
    | notEqual => exact absurd rfl hop.2
    | add | subtract | multiply | divide | less | lessEqual | greater | greaterEqual =>
      cases strings <;> rfl

/-- Two strings are joined on a machine that knows strings. On another one, they are let through if
neither of them is known to be a string. -/
theorem ofBinary?_strings {strings : Bool} (hleft : left = .unknown ∨ left = .known .string)
    (hright : right = .unknown ∨ right = .known .string)
    (hstrings : strings = true ∨ left ≠ .known .string ∧ right ≠ .known .string) :
    ∃ result, ofBinary? strings .add left right = some result ∧
      (result = .unknown ∨ result = .known .string) := by
  rcases hstrings with rfl | ⟨hleft', hright'⟩
  · rcases hleft with rfl | rfl <;> rcases hright with rfl | rfl <;>
      exact ⟨_, rfl, by decide⟩
  · rcases hleft with rfl | rfl
    · rcases hright with rfl | rfl
      · exact ⟨.unknown, by cases strings <;> rfl, .inl rfl⟩
      · exact absurd rfl hright'
    · exact absurd rfl hleft'

/-- A binary operation that succeeds is let through, with a kind that fits. -/
theorem ofBinary?_of_apply {strings : Bool} {op : BinaryOp}
    (hstrings : strings = true ∨ left ≠ .known .string ∧ right ≠ .known .string)
    (hv : left.Fits v) (hw : right.Fits w) (h : op.apply line v w = .ok u) :
    ∃ result, ofBinary? strings op left right = some result ∧ result.Fits u := by
  -- values of all kinds may be compared for equality
  by_cases hop : op = .equal ∨ op = .notEqual
  · rcases hop with rfl | rfl <;> cases h <;> exact ⟨.known .bool, rfl, .inr rfl⟩
  have hop' : op ≠ .equal ∧ op ≠ .notEqual := not_or.mp hop
  rcases BinaryOp.apply_kinds h with ⟨heq, -⟩ | ⟨rfl, hleft, hright, hkind⟩ | ⟨hnumber, hsame, hkind⟩
  · exact absurd heq hop
  · unfold Fits at hv hw ⊢
    rw [hleft] at hv
    rw [hright] at hw
    rw [hkind]
    exact ofBinary?_strings hv hw hstrings
  · -- Two numbers: what is known of either operand is known of both.
    have hw' : right.Fits v := hw.of_kind_eq hsame.symm
    refine ⟨_, ofBinary?_numbers hnumber strings hop' hv hw', ?_⟩
    split at hkind <;> rename_i harith
    · -- Either operand may be the one whose kind is known.
      rw [if_pos harith]
      split
      · exact hw'.of_kind_eq hkind
      · exact hv.of_kind_eq hkind
    · rw [if_neg harith]
      exact .inr (by rw [hkind])

theorem ne_string_of_mayBeNumber (h : kind.mayBeNumber = true) : kind ≠ .known .string := by
  rintro rfl
  cases h

/-- No prefix operator gives a string. -/
theorem ofUnary?_ne_string {op : UnaryOp} {result : StaticKind}
    (h : ofUnary? op kind = some result) : result ≠ .known .string := by
  cases op with
  | not =>
    cases h
    decide
  | negate =>
    simp only [ofUnary?] at h
    split at h
    · cases h
      exact ne_string_of_mayBeNumber ‹_›
    · cases h

/-- Without strings, no operation gives one. -/
theorem ofBinary?_ne_string {op : BinaryOp} {result : StaticKind}
    (h : ofBinary? false op left right = some result) : result ≠ .known .string := by
  simp only [ofBinary?, Bool.false_and, Bool.false_eq_true, if_false] at h
  split at h
  · cases h
    decide
  · split at h
    · cases h
    · split at h
      · cases h
        decide
      · -- The result has the kind of an operand, and both operands may be numbers.
        rename_i hnumbers _
        simp only [Bool.or_eq_true, Bool.not_eq_true', not_or, Bool.not_eq_false] at hnumbers
        cases h
        split
        · exact ne_string_of_mayBeNumber hnumbers.1.2
        · exact ne_string_of_mayBeNumber hnumbers.1.1

end StaticKind

/-! ## Evaluation -/

namespace Eval

variable {α : Type} {scopes scopes' : Scopes Value}

theorem ofExcept_eq_ok {x : Except RuntimeError α} {a : α} (h : ofExcept x scopes = .ok a scopes') :
    x = .ok a := by
  cases x with
  | ok a' =>
    cases h
    rfl
  | error e => cases h

end Eval

namespace Expr

variable {scopes scopes' : Scopes Value} {line : Nat} {v : Value}

/-- An expression that has a value in no environment. -/
def Impossible (e : Expr) : Prop :=
  ∀ scopes v scopes', e.eval scopes ≠ .ok v scopes'

/-- Is it an operation with one or two operands? -/
def isOperation : Expr → Bool
  | unary _ _ _ | binary _ _ _ _ => true
  | _ => false

/-- In every environment, a value of the expression is of this kind. -/
def HasKind (e : Expr) (kind : StaticKind) : Prop :=
  ∀ scopes v scopes', e.eval scopes = .ok v scopes' → kind.Fits v

/-- A unary operation that has a value is let through. -/
theorem HasKind.unary {operand : Expr} {kind : StaticKind} (h : operand.HasKind kind) {op : UnaryOp}
    (hv : (Expr.unary line op operand).eval scopes = .ok v scopes') :
    ∃ result, StaticKind.ofUnary? op kind = some result ∧ result.Fits v := by
  rcases EStateM.bind_eq_ok hv with ⟨w, _, hw, happly⟩
  exact StaticKind.ofUnary?_of_apply (h _ _ _ hw) (Eval.ofExcept_eq_ok happly)

/-- A binary operation that has a value is let through. -/
theorem HasKind.binary {left right : Expr} {leftKind rightKind : StaticKind}
    (hleft : left.HasKind leftKind) (hright : right.HasKind rightKind) {strings : Bool}
    (hstrings : strings = true ∨ leftKind ≠ .known .string ∧ rightKind ≠ .known .string)
    {op : BinaryOp} (hv : (Expr.binary line op left right).eval scopes = .ok v scopes') :
    ∃ result, StaticKind.ofBinary? strings op leftKind rightKind = some result ∧ result.Fits v := by
  rcases EStateM.bind_eq_ok hv with ⟨l, _, hl, hv⟩
  rcases EStateM.bind_eq_ok hv with ⟨r, _, hr, happly⟩
  exact StaticKind.ofBinary?_of_apply hstrings (hleft _ _ _ hl) (hright _ _ _ hr)
    (Eval.ofExcept_eq_ok happly)

end Expr

/-! ## Kinds of generated code -/

/-- Was generation refused for the kinds of operands? -/
def GenError.isOperands : GenError → Bool
  | invalidOperands _ _ _ => true
  | _ => false

namespace Backend

variable {ω ν : Type} [Opcode ω]

/-- A backend leaves the kinds of operands to the walk, and has string literals only for a machine that
knows strings. -/
structure KindBlind (b : Backend ω ν) : Prop where
  strings : b.strings = true ∨ ∀ text s r, b.literal (.string text) s ≠ .ok r
  literal {v s error} : b.literal v s = .error error → error.isOperands = false
  fetch {name s error} : b.fetch name s = .error error → error.isOperands = false
  store {name s error} : b.store name s = .error error → error.isOperands = false

namespace KindBlind

variable {b : Backend ω ν} {s t : GenState ν} {e : Expr} {kind : StaticKind} {code : Code ω}

/-- On a machine that does not know strings, nothing is known to be a string. -/
theorem ne_string (hb : b.KindBlind) (h : b.Emits s e kind code t) :
    b.strings = true ∨ kind ≠ .known .string := by
  rcases hb.strings with hstrings | hliteral
  · exact .inl hstrings
  cases hstrings : b.strings with
  | true => exact .inl rfl
  | false =>
    apply Or.inr
    induction h with
    | @literal _ _ _ value _ _ hcode =>
      -- Only a literal could bring a string in, and there is no code for it.
      intro hkind
      cases value with
      | string text => exact hliteral text _ _ hcode
      | int _ | double _ | bool _ | nil => cases hkind
    | group _ ih => exact ih
    | unary _ _ hkind _ => exact StaticKind.ofUnary?_ne_string hkind
    | binary _ _ _ hkind _ _ =>
      rw [hstrings] at hkind
      exact StaticKind.ofBinary?_ne_string hkind
    | ident _ _ | assign _ _ _ _ | logical _ _ _ _ _ _ _ => decide

/-- The kinds of two operands as the rule for operations wants them. -/
theorem operands (hb : b.KindBlind) {left right : Expr} {leftKind rightKind : StaticKind}
    {leftCode rightCode : Code ω} {u : GenState ν} (hleft : b.Emits s left leftKind leftCode t)
    (hright : b.Emits t right rightKind rightCode u) :
    b.strings = true ∨ leftKind ≠ .known .string ∧ rightKind ≠ .known .string := by
  rcases hb.ne_string hleft with hstrings | hleft
  · exact .inl hstrings
  · rcases hb.ne_string hright with hstrings | hright
    · exact .inl hstrings
    · exact .inr ⟨hleft, hright⟩

/-- The values of an expression are of its static kind. -/
theorem hasKind (hb : b.KindBlind) (h : b.Emits s e kind code t) : e.HasKind kind := by
  induction h with
  | literal _ _ =>
    intro scopes v scopes' hv
    cases hv
    exact .inr rfl
  | group _ ih => exact ih
  | unary _ _ hkind ih =>
    intro scopes v scopes' hv
    rcases ih.unary hv with ⟨_, hkind', hfits⟩
    rw [hkind] at hkind'
    cases hkind'
    exact hfits
  | binary hleft hright _ hkind ihLeft ihRight =>
    intro scopes v scopes' hv
    rcases ihLeft.binary ihRight (hb.operands hleft hright) hv with ⟨_, hkind', hfits⟩
    rw [hkind] at hkind'
    cases hkind'
    exact hfits
  | ident _ _ | assign _ _ _ _ | logical _ _ _ _ _ _ _ =>
    -- Nothing is known of these, which fits every value.
    intro scopes v scopes' _
    exact .inl rfl

/-- A node that is refused for the kinds of its operands is an operation on its line that never has a
value. -/
theorem impossible_of_failsAt (hb : b.KindBlind) {error : GenError} (h : b.FailsAt s e error)
    {op : Operator} {found : List StaticKind} {line : Nat}
    (herror : error = .invalidOperands op found line) :
    e.isOperation = true ∧ e.line = line ∧ e.Impossible := by
  have hblind (hfalse : error.isOperands = false) : False := by
    rw [herror] at hfalse
    cases hfalse
  cases h with
  | line _ => cases herror
  | literal hliteral => exact (hblind (hb.literal hliteral)).elim
  | unary hoperand hkind =>
    cases herror
    refine ⟨rfl, rfl, ?_⟩
    intro scopes v scopes' hv
    rcases (hb.hasKind hoperand).unary hv with ⟨_, hkind', -⟩
    rw [hkind] at hkind'
    cases hkind'
  | binary hleft hright hkind =>
    cases herror
    refine ⟨rfl, rfl, ?_⟩
    -- With a value, the operation would have been let through.
    intro scopes v scopes' hv
    rcases (hb.hasKind hleft).binary (hb.hasKind hright) (hb.operands hleft hright) hv with
      ⟨_, hkind', -⟩
    rw [hkind] at hkind'
    cases hkind'
  | ident hfetch => exact (hblind (hb.fetch hfetch)).elim
  | assign _ hstore => exact (hblind (hb.store hstore)).elim
  | logical _ _ _ _ => cases herror

end KindBlind

end Backend

/-- The pool machine knows strings, and its backend looks at no kinds. -/
theorem PoolOp.backend_kindBlind : PoolOp.backend.KindBlind where
  strings := .inl rfl
  literal h := by rw [(PoolOp.literal_eq_error h).2]; rfl
  fetch h := by rw [(PoolOp.access_eq_error h).2]; rfl
  store h := by rw [(PoolOp.access_eq_error h).2]; rfl

/-- The word machine knows no strings, and its backend looks at no kinds but those of literals. -/
theorem WordOp.backend_kindBlind : WordOp.backend.KindBlind where
  strings := by
    apply Or.inr
    intro text s r h
    rcases WordOp.literal_ok h with ⟨word, hword, -⟩
    cases hword
  literal h := by rw [(WordOp.literal_eq_error h).2]; rfl
  fetch h := by rw [(WordOp.fetch_eq_error h).2]; rfl
  store h := by rw [(WordOp.store_eq_error h).2]; rfl

/-! ## Whole chunks -/

namespace Backend

variable {ω ν : Type} [Opcode ω] {b : Backend ω ν}

/-- Writing generated code to a chunk does not fail, so generation fails in the walk. -/
theorem Lawful.expr_eq_error {Inv : Pool → ν → Prop} (hb : b.Lawful Inv) {e : Expr}
    {error : GenError} (h : b.expression e = .error error) : b.expr e b.start = .error error := by
  -- had the expression code, the chunk could be written, so the error is its own
  rcases hexpr : b.expr e b.start with error' | ⟨⟨kind, code⟩, t⟩
  · have hstep : (do return (← b.expr e).2 : Gen ν (Code ω)) b.start = .error error' := by
      simp only [bind, StateT.bind, Except.bind, hexpr]
    have hfails : b.expression e = .error error' := b.assemble_eq_error hstep
    rw [h] at hfails
    cases hfails
    rfl
  · have hadds := hb.adds_of_emits (b.emits_of_expr hexpr) hb.fresh
    have hstep : (do return (← b.expr e).2 : Gen ν (Code ω)) b.start = .ok (code, t) :=
      Gen.bind_eq_ok.mpr ⟨_, t, hexpr, rfl⟩
    have hok : b.expression e = _ :=
      b.assemble_eq_ok hstep fun i hi => (hadds.inner i hi).valid.line_nonneg
    rw [h] at hok
    cases hok

/-- What a machine's static kinds promise of an expression, from whatever state its code is
generated. -/
structure KindsSound (b : Backend ω ν) (e : Expr) : Prop where
  /-- A kind that is known is the kind of the value, in every environment. -/
  kind {s t kind code} : b.expr e s = .ok ((kind, code), t) →
    ∀ scopes v scopes', e.eval scopes = .ok v scopes' → kind = .unknown ∨ kind = .known v.kind
  /-- What is refused for its operands is an operation that has a value in no environment. -/
  refusal {s op found line} : b.expr e s = .error (.invalidOperands op found line) →
    ∃ part ∈ e.parts, part.isOperation = true ∧ part.line = line ∧ part.Impossible

/-- What such a backend says of the kind of an expression holds of its value. -/
theorem KindBlind.kindsSound (hb : b.KindBlind) (e : Expr) : b.KindsSound e where
  kind h := hb.hasKind (b.emits_of_expr h)
  refusal h := by
    rcases b.failsWithin_of_expr h with ⟨part, hpart, s, hfails⟩
    exact ⟨part, hpart, hb.impossible_of_failsAt hfails rfl⟩

end Backend

/-- Static kinds are sound for both machines: a static kind that is known is the kind of every value
that the expression has, and where an expression is refused for the kinds of operands, one of its unary
or binary operations on the line of the error has a value in no environment. The same holds of the
chunk of an expression. -/
theorem static_kinds_sound (e : Expr) :
    WordOp.backend.KindsSound e ∧ PoolOp.backend.KindsSound e ∧
      ∀ (target : Target) (op : Operator) (found : List StaticKind) (line : Nat),
        target.generateExpr e = .error (.invalidOperands op found line) →
        ∃ part ∈ e.parts, part.isOperation = true ∧ part.line = line ∧ part.Impossible := by
  have hword := WordOp.backend_kindBlind.kindsSound e
  have hpool := PoolOp.backend_kindBlind.kindsSound e
  refine ⟨hword, hpool, ?_⟩
  intro target op found line h
  cases target with
  | word => exact hword.refusal (WordOp.backend_lawful.expr_eq_error h)
  | pool => exact hpool.refusal (PoolOp.backend_lawful.expr_eq_error h)

/-- A variable joined with a string is a string. Nil is never added to anything, so the addition on
line 3 is refused, whatever `x` may be. -/
theorem static_kinds_sound_addition :
    let join : Expr := .binary 1 .add (.ident 1 "x") (.literal 1 (.string "s"))
    let sum : Expr := .unary 2 .not (.binary 3 .add (.literal 3 .nil) (.ident 3 "x"))
    (∀ scopes v scopes', join.eval scopes = .ok v scopes' → v.kind = .string) ∧
      ∃ part ∈ sum.parts, part.isOperation = true ∧ part.line = 3 ∧ part.Impossible := by
  intro join sum
  constructor
  · intro scopes v scopes' hv
    have hkind : ∃ code t, PoolOp.backend.expr join PoolOp.backend.start
        = .ok ((.known .string, code), t) := ⟨_, _, rfl⟩
    rcases hkind with ⟨code, t, hkind⟩
    rcases (static_kinds_sound join).2.1.kind hkind scopes v scopes' hv with h | h
    · cases h
    · exact (StaticKind.known.inj h).symm
  · exact (static_kinds_sound sum).2.2 .pool (.binary .add) [.known .nil, .unknown] 3 rfl

end Scriptlet
