import Scriptlet.Proofs.Operations
import Scriptlet.Proofs.Sequencing
import Scriptlet.Run.Eval

/-! # Integer arithmetic is exact or refused

Every expression of integer literals, groups, negations and the four arithmetic operations has a value
over the integers without bounds, unless it divides by zero somewhere. Evaluation knows numbers of 64 bits
only. It gives the value if all values on the way to it fit into 64 bits, and otherwise stops at the first
operation that is at fault: its operands are fine and its result is not.

Which of several faults is reported is a matter of the order of evaluation. Operands come before their
operation, and the left one before the right one, so it is the first fault in `Expr.postorder`. A result
that does not fit is never used, even if what is computed from it would fit again.

## Main statement

* `integer_evaluation_exact`: evaluation gives the exact value, or the error of the first fault.
-/

namespace Scriptlet

/-! ## Exact values -/

/-- Numbers that fit into 64 bits: from -2^63 up to 2^63 - 1. -/
def inRange (n : Int) : Bool :=
  decide (-0x8000000000000000 ≤ n ∧ n ≤ 0x7FFFFFFFFFFFFFFF)

/-- The result of an arithmetic operator on integers. Division goes toward zero; by zero there is
none. -/
def BinaryOp.exactResult? (op : BinaryOp) (m n : Int) : Option Int :=
  match op with
  | add => some (m + n)
  | subtract => some (m - n)
  | multiply => some (m * n)
  | divide => if n = 0 then none else some (m.tdiv n)
  | _ => none

namespace Expr

/-- Arithmetic on integers. -/
inductive Arithmetic : Expr → Prop where
  | literal (line : Nat) (n : Int64) : Arithmetic (.literal line (.int n))
  | group {line : Nat} {inner : Expr} (h : Arithmetic inner) : Arithmetic (.group line inner)
  | negation {line : Nat} {operand : Expr} (h : Arithmetic operand) :
      Arithmetic (.unary line .negate operand)
  | operation {line : Nat} {op : BinaryOp} {left right : Expr} (hop : op.isArithmetic = true)
      (hleft : Arithmetic left) (hright : Arithmetic right) : Arithmetic (.binary line op left right)

/-- The value of arithmetic over all integers; none if something is divided by zero on the way. -/
def exactValue? : Expr → Option Int
  | literal _ (.int n) => some n.toInt
  | group _ inner => inner.exactValue?
  | unary _ .negate operand => operand.exactValue?.map fun n => -n
  | binary _ op left right =>
      left.exactValue?.bind fun m => right.exactValue?.bind fun n => op.exactResult? m n
  | _ => none

/-- Does the expression have a value that fits into 64 bits? -/
def fits (e : Expr) : Bool :=
  e.exactValue?.any inRange

/-- An expression and all expressions that it is made of: operands come before their operation, the
left ones first. -/
def postorder : Expr → List Expr
  | literal line value => [literal line value]
  | group line inner => inner.postorder ++ [group line inner]
  | unary line op operand => operand.postorder ++ [unary line op operand]
  | binary line op left right => left.postorder ++ right.postorder ++ [binary line op left right]
  | ident line name => [ident line name]
  | assign line name value => value.postorder ++ [assign line name value]
  | logical line op left right => left.postorder ++ right.postorder ++ [logical line op left right]

/-! ## Faults -/

/-- The operator and the operands of an operation. -/
def operation? : Expr → Option (Operator × List Expr)
  | unary _ op operand => some (.unary op, [operand])
  | binary _ op left right => some (.binary op, [left, right])
  | _ => none

/-- Is it an operation on operands that fit whose own value does not? -/
def isFault (e : Expr) : Bool :=
  e.operation?.any (fun o => o.2.all fits) && !e.fits

/-- Is it a division by zero? -/
def dividesByZero : Expr → Bool
  | binary _ .divide _ right => right.exactValue? == some 0
  | _ => false

/-- The error of an operation that is at fault. -/
def faultError (op : Operator) (e : Expr) : RuntimeError :=
  if e.dividesByZero then .divisionByZero e.line else .integerOverflow op e.line

/-- An operation divides by zero if it is a division and its right operand is zero. -/
theorem dividesByZero_binary {line : Nat} {op : BinaryOp} {left right : Expr} {n : Int}
    (h : right.exactValue? = some n) :
    (binary line op left right).dividesByZero = true ↔ op = .divide ∧ n = 0 := by
  cases op <;> simp [dividesByZero, h]

theorem mem_postorder_self (e : Expr) : e ∈ e.postorder := by
  cases e <;> simp [postorder]

/-- What fits is not at fault. -/
theorem isFault_of_fits {e : Expr} (h : e.fits = true) : e.isFault = false := by
  simp [isFault, h]

/-- Where everything fits, nothing is at fault. -/
theorem find?_isFault_of_fits {es : List Expr} (h : ∀ e ∈ es, e.fits = true) :
    es.find? isFault = none := by
  rw [List.find?_eq_none]
  intro e he
  simp [isFault_of_fits (h e he)]

/-- A fault in front comes before whatever is behind it. -/
theorem find?_isFault_front {front : List Expr} {s : Expr} (h : front.find? isFault = some s)
    (behind : List Expr) : (front ++ behind).find? isFault = some s := by
  rw [List.find?_append, h, Option.some_or]

end Expr

/-! ## Operations on integers in range -/

/-- A number of 64 bits is in their range. -/
theorem inRange_toInt (n : Int64) : inRange n.toInt = true := by
  have hlow := n.le_toInt
  have hhigh := n.toInt_lt
  exact decide_eq_true ⟨hlow, by omega⟩

/-- A result in range is a number of 64 bits. -/
theorem exactInt_of_inRange {n : Int} (h : inRange n = true) (op : Operator) (line : Nat) :
    ∃ w : Int64, w.toInt = n ∧ exactInt op line n = .ok (.int w) := by
  obtain ⟨hlow, hhigh⟩ := of_decide_eq_true h
  refine ⟨Int64.ofInt n, Int64.toInt_ofInt_of_le hlow (by omega), ?_⟩
  have hexact : exactInt? n = some (Int64.ofInt n) := if_pos ⟨hlow, by omega⟩
  simp only [exactInt, hexact]

/-- A result out of range is an overflow. -/
theorem exactInt_of_not_inRange {n : Int} (h : inRange n = false) (op : Operator) (line : Nat) :
    exactInt op line n = .error (.integerOverflow op line) := by
  have hout := of_decide_eq_false h
  have hnone : exactInt? n = none := if_neg (by omega)
  simp only [exactInt, hnone]

namespace BinaryOp

variable {op : BinaryOp}

/-- Only a division by zero has no result. -/
theorem exactResult?_eq_none {m n : Int} (hop : op.isArithmetic = true) :
    op.exactResult? m n = none ↔ op = .divide ∧ n = 0 := by
  cases op with
  | add | subtract | multiply => simp [exactResult?]
  | divide => simp [exactResult?]
  | equal | notEqual | less | lessEqual | greater | greaterEqual => cases hop

/-- An arithmetic operator that has a result computes it exactly or overflows. -/
theorem apply_exactResult {m n : Int64} {k : Int} (hk : op.exactResult? m.toInt n.toInt = some k)
    (line : Nat) : op.apply line (.int m) (.int n) = exactInt (.binary op) line k := by
  rw [apply_int]
  cases op with
  | add | subtract | multiply =>
    cases hk
    rfl
  | divide =>
    have hzero : n.toInt ≠ 0 := by
      intro hzero
      rw [(exactResult?_eq_none rfl).mpr ⟨rfl, hzero⟩] at hk
      cases hk
    have hn : n ≠ 0 := fun hn => hzero (by rw [hn]; rfl)
    rw [exactResult?, if_neg hzero] at hk
    cases hk
    rw [applyInt, if_neg hn]
  | equal | notEqual | less | lessEqual | greater | greaterEqual => cases hk

end BinaryOp

/-! ## Evaluation -/

namespace Expr

/-- What becomes of arithmetic, whatever the variables are: it has the exact value, or fails with the
error of the first fault. -/
inductive Settled (e : Expr) : Prop where
  | exact (n : Int64) (hfits : ∀ s ∈ e.postorder, s.fits = true)
      (hvalue : e.exactValue? = some n.toInt)
      (heval : ∀ scopes, e.eval scopes = .ok (.int n) scopes)
  | fault (s : Expr) (op : Operator) (operands : List Expr)
      (hfirst : e.postorder.find? isFault = some s) (hop : s.operation? = some (op, operands))
      (heval : ∀ scopes, e.eval scopes = .error (s.faultError op) scopes)

section Eval

variable {line : Nat} {operand left right : Expr} {op : UnaryOp} {bop : BinaryOp} {m n : Int64}
  {scopes : Scopes Value}

/-- The operator is applied to the value of its operand. -/
theorem eval_unary (h : operand.eval scopes = .ok (.int n) scopes) :
    (unary line op operand).eval scopes = Eval.ofExcept (op.apply line (.int n)) scopes := by
  rw [eval, EStateM.bind_of_ok h]

/-- The operator is applied to the values of its operands, the left one first. -/
theorem eval_binary (hleft : left.eval scopes = .ok (.int m) scopes)
    (hright : right.eval scopes = .ok (.int n) scopes) :
    (binary line bop left right).eval scopes
      = Eval.ofExcept (bop.apply line (.int m) (.int n)) scopes := by
  rw [eval, EStateM.bind_of_ok hleft, EStateM.bind_of_ok hright]

theorem fits_of_value {e : Expr} {k : Int} (h : e.exactValue? = some k) : e.fits = inRange k := by
  rw [fits, h, Option.any_some]

end Eval

/-- A step of the walk: behind operands that all fit, an operation is the first that can be at fault.
It is settled by its exact value, if it has one. -/
theorem Settled.of_operands {e : Expr} {front operands : List Expr} {op : Operator}
    (hpostorder : e.postorder = front ++ [e]) (hfront : ∀ s ∈ front, s.fits = true)
    (hop : e.operation? = some (op, operands)) (hoperands : operands.all fits = true)
    (hvalue : ∀ k, e.exactValue? = some k →
      e.dividesByZero = false ∧ ∀ scopes, e.eval scopes = Eval.ofExcept (exactInt op e.line k) scopes)
    (hnone : e.exactValue? = none →
      e.dividesByZero = true ∧ ∀ scopes, e.eval scopes = .error (.divisionByZero e.line) scopes) :
    e.Settled := by
  -- everything in front of the operation fits, so a fault of its own is the first one
  have hfirst (hfits : e.fits = false) : e.postorder.find? isFault = some e := by
    have hfault : e.isFault = true := by simp [isFault, hop, hoperands, hfits]
    rw [hpostorder, List.find?_append, find?_isFault_of_fits hfront, Option.none_or,
      List.find?_cons_of_pos hfault]
  cases hexact : e.exactValue? with
  | none =>
    obtain ⟨hzero, heval⟩ := hnone hexact
    refine .fault e op operands (hfirst (by simp [fits, hexact])) hop fun scopes => ?_
    rw [heval, faultError, if_pos hzero]
  | some k =>
    obtain ⟨hzero, heval⟩ := hvalue k hexact
    -- the exact value is there: it fits or it overflows
    cases hrange : inRange k with
    | true =>
      obtain ⟨w, hw, hint⟩ := exactInt_of_inRange hrange op e.line
      refine .exact w ?_ (by rw [hexact, hw]) fun scopes => by rw [heval, hint]; rfl
      rw [hpostorder, List.forall_mem_append]
      exact ⟨hfront, by simpa [fits_of_value hexact] using hrange⟩
    | false =>
      refine .fault e op operands (hfirst (by rw [fits_of_value hexact, hrange])) hop
        fun scopes => ?_
      rw [heval, exactInt_of_not_inRange hrange, faultError, if_neg (by simp [hzero])]
      rfl

section Constructors

variable {line : Nat} {inner operand left right : Expr} {op : BinaryOp}

/-- A group is settled as what is in it. -/
theorem Settled.group (h : inner.Settled) : (group line inner).Settled := by
  cases h with
  | exact n hfits hvalue heval =>
    refine .exact n ?_ hvalue heval
    rw [postorder, List.forall_mem_append]
    exact ⟨hfits, List.forall_mem_singleton.mpr (hfits inner inner.mem_postorder_self)⟩
  | fault s op operands hfirst hop heval =>
    exact .fault s op operands (find?_isFault_front hfirst _) hop heval

/-- A negation is settled, if its operand is. -/
theorem Settled.negation (h : operand.Settled) : (unary line .negate operand).Settled := by
  cases h with
  | fault s op operands hfirst hop heval =>
    refine .fault s op operands (find?_isFault_front hfirst _) hop fun scopes => ?_
    rw [eval, EStateM.bind_of_error (heval scopes)]
  | exact n hfits hvalue heval =>
    have hnegation : (unary line .negate operand).exactValue? = some (-n.toInt) := by
      rw [exactValue?, hvalue, Option.map_some]
    have hoperands : [operand].all fits = true := by
      simpa using hfits operand operand.mem_postorder_self
    refine .of_operands rfl hfits rfl hoperands ?_ ?_
    · intro k hk
      rw [hnegation] at hk
      cases hk
      exact ⟨rfl, fun scopes => eval_unary (heval scopes)⟩
    · intro hk
      rw [hnegation] at hk
      cases hk

/-- Two operands without a fault: the operation is settled by what it makes of their values. -/
theorem settled_of_exact_operands {m n : Int64} (hop : op.isArithmetic = true)
    (hfitsleft : ∀ s ∈ left.postorder, s.fits = true) (hleft : left.exactValue? = some m.toInt)
    (hevalleft : ∀ scopes, left.eval scopes = .ok (.int m) scopes)
    (hfitsright : ∀ s ∈ right.postorder, s.fits = true) (hright : right.exactValue? = some n.toInt)
    (hevalright : ∀ scopes, right.eval scopes = .ok (.int n) scopes) :
    (binary line op left right).Settled := by
  have hresult : (binary line op left right).exactValue? = op.exactResult? m.toInt n.toInt := by
    rw [exactValue?, hleft, hright, Option.bind_some, Option.bind_some]
  have hoperands : [left, right].all fits = true := by
    simp [hfitsleft left left.mem_postorder_self, hfitsright right right.mem_postorder_self]
  refine .of_operands rfl (List.forall_mem_append.mpr ⟨hfitsleft, hfitsright⟩) rfl hoperands ?_ ?_
  · -- there is a result, so nothing is divided by zero
    intro k hk
    rw [hresult] at hk
    refine ⟨?_, fun scopes => ?_⟩
    · rw [Bool.eq_false_iff]
      intro hzero
      rw [(BinaryOp.exactResult?_eq_none hop).mpr ((dividesByZero_binary hright).mp hzero)] at hk
      cases hk
    · rw [eval_binary (hevalleft scopes) (hevalright scopes), BinaryOp.apply_exactResult hk]
      rfl
  · intro hk
    rw [hresult, BinaryOp.exactResult?_eq_none hop] at hk
    refine ⟨(dividesByZero_binary hright).mpr hk, fun scopes => ?_⟩
    obtain ⟨rfl, hzero⟩ := hk
    have hn : n = 0 := Int64.toInt_inj.mp hzero
    rw [eval_binary (hevalleft scopes) (hevalright scopes), hn]
    rfl

/-- An operation is settled, if its operands are: the first fault is that of the left one, then that
of the right one, then its own. -/
theorem Settled.operation (hop : op.isArithmetic = true) (hleft : left.Settled)
    (hright : right.Settled) : (binary line op left right).Settled := by
  cases hleft with
  | fault s op' operands hfirst hop' heval =>
    refine .fault s op' operands ?_ hop' fun scopes => ?_
    · rw [postorder, List.append_assoc]
      exact find?_isFault_front hfirst _
    · rw [eval, EStateM.bind_of_error (heval scopes)]
  | exact m hfitsleft hleft hevalleft =>
    cases hright with
    | fault s op' operands hfirst hop' heval =>
      -- the left operand has no fault, so that of the right one comes first
      refine .fault s op' operands ?_ hop' fun scopes => ?_
      · rw [postorder, List.append_assoc, List.find?_append, find?_isFault_of_fits hfitsleft,
          Option.none_or]
        exact find?_isFault_front hfirst _
      · rw [eval, EStateM.bind_of_ok (hevalleft scopes), EStateM.bind_of_error (heval scopes)]
    | exact n hfitsright hright hevalright =>
      exact settled_of_exact_operands hop hfitsleft hleft hevalleft hfitsright hright hevalright

end Constructors

/-- All arithmetic is settled: the walk goes the way of evaluation, and stops at the first fault. -/
theorem Arithmetic.settled {e : Expr} (he : e.Arithmetic) : e.Settled := by
  induction he with
  | literal line n =>
    refine .exact n ?_ rfl fun _ => rfl
    simpa [postorder] using (fits_of_value rfl).trans (inRange_toInt n)
  | group _ ih => exact ih.group
  | negation _ ih => exact ih.negation
  | operation hop _ _ ihleft ihright => exact .operation hop ihleft ihright

end Expr

/-- Integer arithmetic is exact or refused, for expressions of any size and whatever the variables are.
Evaluation gives an integer just when every part of the expression has a value that fits into 64 bits,
and then it is the exact value of the expression. Otherwise it fails with the error of the first fault:
a division by zero, or else an overflow, on the line of the operation. -/
theorem integer_evaluation_exact {e : Expr} (he : e.Arithmetic) (scopes : Scopes Value) :
    ((∃ n, e.eval scopes = .ok (.int n) scopes) ↔ ∀ s ∈ e.postorder, s.fits = true) ∧
      (∀ n after, e.eval scopes = .ok (.int n) after → e.exactValue? = some n.toInt) ∧
      ((¬ ∀ s ∈ e.postorder, s.fits = true) →
        ∃ s op operands, e.postorder.find? Expr.isFault = some s ∧
          s.operation? = some (op, operands) ∧
          e.eval scopes = .error
            (if s.dividesByZero then .divisionByZero s.line else .integerOverflow op s.line) scopes) := by
  cases he.settled with
  | exact n hfits hvalue heval =>
    refine ⟨⟨fun _ => hfits, fun _ => ⟨n, heval scopes⟩⟩, ?_, fun h => absurd hfits h⟩
    intro n' after h
    rw [heval] at h
    cases h
    exact hvalue
  | fault s op operands hfirst hop heval =>
    have hmem := List.mem_of_find?_eq_some hfirst
    have hfault := List.find?_some hfirst
    -- what is at fault does not fit
    have hfits : ¬ ∀ s ∈ e.postorder, s.fits = true := by
      intro h
      rw [Expr.isFault_of_fits (h s hmem)] at hfault
      cases hfault
    refine ⟨⟨?_, fun h => absurd h hfits⟩, ?_, fun _ => ⟨s, op, operands, hfirst, hop, heval scopes⟩⟩
    · rintro ⟨n, h⟩
      rw [heval] at h
      cases h
    · intro n after h
      rw [heval] at h
      cases h

/-- The least integer is reached exactly. One more than the greatest one is refused where it is added,
though the next operation would lead back and another one divides by zero. -/
theorem integer_evaluation_exact_at_limits :
    let greatest : Expr := .literal 1 (.int Int64.maxValue)
    let one : Expr := .literal 1 (.int 1)
    let least : Expr := .binary 2 .subtract (.unary 1 .negate greatest) one
    let sum : Expr := .binary 3 .add greatest one
    let e : Expr := .binary 6 .divide (.group 4 (.binary 4 .subtract (.group 3 sum) one))
      (.binary 5 .divide one (.literal 5 (.int 0)))
    (least.Arithmetic ∧ (∀ s ∈ least.postorder, s.fits = true) ∧
      ∃ n : Int64, least.eval .empty = .ok (.int n) .empty ∧ n.toInt = -0x8000000000000000) ∧
    (e.Arithmetic ∧ (¬ ∀ s ∈ e.postorder, s.fits = true) ∧
      e.eval .empty = .error (.integerOverflow (.binary .add) 3) .empty) := by
  intro greatest one least sum e
  have hgreatest : greatest.Arithmetic := .literal 1 _
  have hone : one.Arithmetic := .literal 1 _
  have hleast : least.Arithmetic := .operation rfl (.negation hgreatest) hone
  have he : e.Arithmetic :=
    .operation rfl (.group (.operation rfl (.group (.operation rfl hgreatest hone)) hone))
      (.operation rfl hone (.literal 5 _))
  have hfits : ∀ s ∈ least.postorder, s.fits = true := by decide +kernel
  have hunfit : ¬ ∀ s ∈ e.postorder, s.fits = true := by decide +kernel
  have hsum : e.postorder.find? Expr.isFault = some sum := by decide +kernel
  constructor
  · obtain ⟨hiff, hexact, -⟩ := integer_evaluation_exact hleast .empty
    obtain ⟨n, hn⟩ := hiff.mpr hfits
    have hvalue : least.exactValue? = some (-0x8000000000000000) := by decide +kernel
    refine ⟨hleast, hfits, n, hn, ?_⟩
    exact Option.some.inj ((hexact n _ hn).symm.trans hvalue)
  · obtain ⟨s, op, operands, hfirst, hop, heval⟩ := (integer_evaluation_exact he .empty).2.2 hunfit
    rw [hsum] at hfirst
    cases hfirst
    cases hop
    exact ⟨he, hunfit, heval⟩

end Scriptlet
