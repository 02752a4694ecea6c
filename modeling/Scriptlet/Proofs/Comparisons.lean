import Scriptlet.Proofs.Operations
import Scriptlet.Proofs.Running

/-! # Derived comparisons

The pool machine has instructions for `==`, `<` and `>`. Code for `!=`, `>=` and `<=` is one of them and
a negation behind it. That computes the comparison as long as one of two values is below the other or
they are equal. Doubles are ordered partially: a NaN is neither below, equal to nor above any double,
and all order comparisons with it are false, so the negation of one of them is not the other one.

## Main statements

* `derived_comparisons`: unless a NaN is in the way of an order comparison, each of the three is the
  negation of its instruction, and its code computes it.
* `nan_comparisons_not_derived`: with a NaN, `<=` and `>=` are not.
-/

namespace Scriptlet

open Float.Model

/-! ## The order of doubles -/

/-- How one double compares with another one; they need not compare at all. -/
def doubleOrder (x y : Float) : Option Ordering :=
  x.toModel.unpack.compare y.toModel.unpack

/-- One double is less than another one, if it compares as less. -/
theorem decide_lt_double (x y : Float) : decide (x < y) = (doubleOrder x y == some .lt) := by
  have hfloat : decide (x < y) = decide (x.toModel < y.toModel) := Bool.decide_eq_true
  exact hfloat.trans Bool.decide_eq_true

/-- One double is at most another one, if it compares as less or as equal. -/
theorem decide_le_double (x y : Float) : decide (x ≤ y) = (doubleOrder x y).any Ordering.isLE := by
  have hfloat : decide (x ≤ y) = decide (x.toModel ≤ y.toModel) := Bool.decide_eq_true
  exact hfloat.trans Bool.decide_eq_true

theorem sign_compare_swap (s t : UnpackedFloat.Sign) : compare t s = (compare s t).swap := by
  cases s <;> cases t <;> rfl

/-- Numbers of one sign compare by exponent and then by mantissa. -/
theorem magnitude_compare_swap (e e' : Int) (m m' : Nat) :
    (compare e' e).then (compare m' m) = ((compare e e').then (compare m m')).swap := by
  rw [Ordering.swap_then, Int.compare_swap, Nat.compare_swap]

/-- Which of two doubles comes first does not matter. -/
theorem unpacked_compare_swap (x y : UnpackedFloat) :
    y.compare x = (x.compare y).map Ordering.swap := by
  cases x with
  | notANumber => cases y <;> rfl
  | infinity s =>
    cases y with
    | infinity t => exact congrArg some (sign_compare_swap s t)
    | notANumber => cases s <;> rfl
    | zero t => cases s <;> rfl
    | finite t m e hm => cases s <;> cases t <;> rfl
  | zero s =>
    cases y with
    | infinity t => cases t <;> rfl
    | notANumber => rfl
    | zero t => rfl
    | finite t m e hm => cases t <;> rfl
  | finite s m e hm =>
    cases y with
    | infinity t => cases t <;> cases s <;> rfl
    | notANumber => rfl
    | zero t => cases s <;> rfl
    | finite t m' e' hm' =>
      -- Only between numbers of one sign do exponent and mantissa matter; otherwise the signs decide.
      cases s with
      | negative =>
        cases t with
        | negative => exact congrArg (some ∘ Ordering.swap) (magnitude_compare_swap e e' m m')
        | positive => rfl
      | positive =>
        cases t with
        | negative => rfl
        | positive => exact congrArg some (magnitude_compare_swap e e' m m')

/-- Comparing the other way round turns the result around. -/
theorem doubleOrder_swap (x y : Float) : doubleOrder y x = (doubleOrder x y).map Ordering.swap :=
  unpacked_compare_swap _ _

/-- Two doubles of which none is a NaN compare. -/
theorem unpacked_compare_isSome {x y : UnpackedFloat} (hx : x.isNaN = false) (hy : y.isNaN = false) :
    ∃ o, x.compare y = some o := by
  -- by the kinds of both numbers: signs decide except between two finite ones
  cases x with
  | notANumber => cases hx
  | infinity s =>
    cases y with
    | notANumber => cases hy
    | infinity t => exact ⟨_, rfl⟩
    | zero t => cases s <;> exact ⟨_, rfl⟩
    | finite t m e hm => cases s <;> exact ⟨_, rfl⟩
  | zero s =>
    cases y with
    | notANumber => cases hy
    | infinity t => cases t <;> exact ⟨_, rfl⟩
    | zero t => exact ⟨_, rfl⟩
    | finite t m e hm => cases t <;> exact ⟨_, rfl⟩
  | finite s m e hm =>
    cases y with
    | notANumber => cases hy
    | infinity t => cases t <;> exact ⟨_, rfl⟩
    | zero t => cases s <;> exact ⟨_, rfl⟩
    | finite t m' e' hm' => cases s <;> cases t <;> exact ⟨_, rfl⟩

/-- Nothing compares with what is not a number. -/
theorem unpacked_compare_nan {x y : UnpackedFloat} (h : x.isNaN = true ∨ y.isNaN = true) :
    x.compare y = none := by
  rcases h with h | h
  · cases x with
    | notANumber => rfl
    | infinity s | zero s | finite s m e hm => cases h
  · cases y with
    | notANumber => cases x <;> rfl
    | infinity s | zero s | finite s m e hm => cases h

/-- Among doubles without a NaN, one is at most the other one unless it is above it. -/
theorem decide_le_of_ordered {x y : Float} (hx : x.isNaN = false) (hy : y.isNaN = false) :
    decide (x ≤ y) = !decide (y < x) := by
  have hsome : ∃ o, doubleOrder x y = some o := unpacked_compare_isSome hx hy
  rcases hsome with ⟨o, ho⟩
  rw [decide_le_double, decide_lt_double, doubleOrder_swap x y, ho]
  cases o <;> rfl

/-- Every order comparison with a NaN is false. -/
theorem comparison_of_nan {x y : Float} (h : x.isNaN = true ∨ y.isNaN = true) :
    decide (x < y) = false ∧ decide (x ≤ y) = false := by
  have hnone : doubleOrder x y = none := unpacked_compare_nan h
  rw [decide_lt_double, decide_le_double, hnone]
  exact ⟨rfl, rfl⟩

/-! ## Values -/

/-- Are the values doubles, with a NaN among them? -/
def Value.unordered : Value → Value → Bool
  | .double x, .double y => x.isNaN || y.isNaN
  | _, _ => false

/-- A value that is not exact is a double. -/
theorem Value.eq_double {v : Value} (h : ¬ v.Exact) : ∃ x, v = .double x := by
  cases v with
  | double x => exact ⟨x, rfl⟩
  | int _ | bool _ | string _ | nil =>
    apply absurd _ h
    rintro ⟨⟩

namespace BinaryOp

/-- Among doubles without a NaN, a derived comparison is the negation of the other one. -/
theorem applyDouble_negated {op base : BinaryOp} (hop : op.negated? = some base) (line : Nat)
    {x y : Float} (hordered : op = .notEqual ∨ x.isNaN = false ∧ y.isNaN = false) :
    ∃ b, base.apply line (.double x) (.double y) = .ok (.bool b) ∧
      op.apply line (.double x) (.double y) = .ok (.bool (!b)) := by
  cases op with
  | add | subtract | multiply | divide | equal | less | greater => cases hop
  | notEqual =>
    cases hop
    exact ⟨_, rfl, rfl⟩
  | lessEqual =>
    cases hop
    rcases hordered with h | ⟨hx, hy⟩
    · cases h
    -- without a NaN, one of two doubles is at most the other one or greater than it
    · have hle := decide_le_of_ordered hx hy
      exact ⟨decide (y < x), rfl, congrArg (Except.ok ∘ Value.bool) hle⟩
  | greaterEqual =>
    cases hop
    rcases hordered with h | ⟨hx, hy⟩
    · cases h
    · have hle := decide_le_of_ordered hy hx
      exact ⟨decide (x < y), rfl, congrArg (Except.ok ∘ Value.bool) hle⟩

/-- Unless a NaN is in the way, a derived comparison is the negation of the other one, and fails where
the other one fails. -/
theorem apply_negated_of_ordered {op base : BinaryOp} (hop : op.negated? = some base) (line : Nat)
    {left right : Value} (hordered : op = .notEqual ∨ left.unordered right = false) :
    (∃ b, base.apply line left right = .ok (.bool b) ∧
        op.apply line left right = .ok (.bool (!b))) ∨
      ((∃ e, base.apply line left right = .error e) ∧ ∃ e, op.apply line left right = .error e) := by
  by_cases hexact : left.Exact
  · exact apply_negated hop line hexact right
  · rcases Value.eq_double hexact with ⟨x, rfl⟩
    cases right with
    | double y =>
      apply Or.inl
      apply applyDouble_negated hop line
      rcases hordered with h | h
      · exact .inl h
      · exact .inr (Bool.or_eq_false_iff.mp h)
    | int _ | bool _ | string _ | nil =>
      -- Values of different kinds are unequal, and they have no order.
      cases op with
      | add | subtract | multiply | divide | equal | less | greater => cases hop
      | notEqual =>
        cases hop
        exact .inl ⟨_, rfl, rfl⟩
      | lessEqual | greaterEqual =>
        cases hop
        exact .inr ⟨⟨_, rfl⟩, ⟨_, rfl⟩⟩

/-- With a NaN, every order comparison of doubles is false. -/
theorem apply_unordered {op : BinaryOp} (hop : op.isComparison = true) (line : Nat)
    {left right : Value} (h : left.unordered right = true) :
    op.apply line left right = .ok (.bool false) := by
  cases left with
  | int _ | bool _ | string _ | nil => cases h
  | double x =>
    cases right with
    | int _ | bool _ | string _ | nil => cases h
    | double y =>
      have hnan : x.isNaN = true ∨ y.isNaN = true := Bool.or_eq_true_iff.mp h
      cases op with
      | add | subtract | multiply | divide | equal | notEqual => cases hop
      | less => exact congrArg (Except.ok ∘ Value.bool) (comparison_of_nan hnan).1
      | lessEqual => exact congrArg (Except.ok ∘ Value.bool) (comparison_of_nan hnan).2
      | greater => exact congrArg (Except.ok ∘ Value.bool) (comparison_of_nan hnan.symm).1
      | greaterEqual => exact congrArg (Except.ok ∘ Value.bool) (comparison_of_nan hnan.symm).2

end BinaryOp

/-! ## Code -/

/-- The code of a derived comparison is the instruction of the other one and a negation. -/
theorem PoolOp.ofBinary_negated {op base : BinaryOp} (hop : op.negated? = some base) :
    ∃ o, ofBinary base = [o] ∧ ofBinary op = [o, .not] := by
  cases op with
  | add | subtract | multiply | divide | equal | less | greater => cases hop
  | notEqual | lessEqual | greaterEqual =>
    cases hop
    exact ⟨_, rfl, rfl⟩

namespace PoolMachine

open Machine

variable {c : Chunk} {m : PoolMachine} {base : BinaryOp} {o : PoolOp} {left right : Value}
  {below : List Value} {line : Nat}

/-- The code of a derived comparison replaces two values by the negation of what the other comparison
gives. -/
theorem run_negated {b : Bool} (hbase : PoolOp.ofBinary base = [o])
    (hstack : m.stack = right :: left :: below) (hcode : c.Holds m.pc (Code.plain line [o, .not]))
    (hb : base.apply line left right = .ok (.bool b)) :
    run (step c) 2 m = (.running, { m with
      pc := m.pc + Code.size (Code.plain line [o, .not]), stack := .bool (!b) :: below }) := by
  rcases next_of_holds hcode with ⟨hnext, hrest⟩
  have hcompare := step_binary hnext hbase hstack
  rw [hb] at hcompare
  have hnot : Next c (m.behind o (.bool b :: below)) (PoolOp.backend.unary .not) 0 line :=
    (next_of_holds hrest).1
  have hmoves : Moves (step c) 2 m _ := .head hcompare (.single (step_unary hnot rfl))
  rw [hmoves.run_add 0, run]
  simp [behind, Code.plain, PoolOp.backend, Value.truthy, Nat.add_assoc]

/-- Where the other comparison fails, the code fails at its first instruction. -/
theorem run_refused {e : RuntimeError} (hbase : PoolOp.ofBinary base = [o])
    (hstack : m.stack = right :: left :: below) (hcode : c.Holds m.pc (Code.plain line [o, .not]))
    (he : base.apply line left right = .error e) : run (step c) 2 m = (.failed, m) := by
  have hcompare := step_binary (next_of_holds hcode).1 hbase hstack
  rw [he] at hcompare
  rw [run, hcompare]

end PoolMachine

open PoolMachine Machine in
/-- `!=`, `<=` and `>=` as negations of `==`, `>` and `<`, for values of all kinds.

Unless the order of two doubles is asked for of which one is a NaN, a comparison gives a truth value
exactly where the other one gives the opposite one, and its code computes what it gives: two steps of
the machine replace the operands by the result, or the first of them fails where there is no result.

With a NaN, both of two such order comparisons are false. -/
theorem derived_comparisons {op base : BinaryOp} (hop : op.negated? = some base) (line : Nat)
    (left right : Value) :
    (op = .notEqual ∨ left.unordered right = false →
      (∀ b, op.apply line left right = .ok (.bool b) ↔
        base.apply line left right = .ok (.bool !b)) ∧
      ∀ (c : Chunk) (m : PoolMachine) (below : List Value),
        m.stack = right :: left :: below →
        c.Holds m.pc (Code.plain line (PoolOp.ofBinary op)) →
        (∀ v, op.apply line left right = .ok v →
          run (step c) 2 m = (.running, { m with
            pc := m.pc + Code.size (Code.plain line (PoolOp.ofBinary op)), stack := v :: below })) ∧
        ∀ e, op.apply line left right = .error e → run (step c) 2 m = (.failed, m)) ∧
    (op ≠ .notEqual → left.unordered right = true →
      op.apply line left right = .ok (.bool false) ∧
        base.apply line left right = .ok (.bool false)) := by
  constructor
  · intro hordered
    rcases PoolOp.ofBinary_negated hop with ⟨o, hbase, hop'⟩
    rw [hop']
    rcases BinaryOp.apply_negated_of_ordered hop line hordered with
      ⟨b, hb, happly⟩ | ⟨⟨e, he⟩, e', he'⟩
    · -- Both comparisons give a truth value, and the machine negates that of the instruction.
      rw [hb, happly]
      refine ⟨fun b' => ?_, ?_⟩
      · cases b <;> cases b' <;> simp
      · intro c m below hstack hcode
        constructor
        · intro v hv
          cases hv
          exact run_negated hbase hstack hcode hb
        · intro e he
          cases he
    · -- Neither of them gives one, and the machine does not get as far as the negation.
      rw [he, he']
      refine ⟨fun b' => ⟨nofun, nofun⟩, ?_⟩
      intro c m below hstack hcode
      exact ⟨nofun, fun _ _ => run_refused hbase hstack hcode he⟩
  · intro hne hnan
    -- with a NaN, both the comparison and the one it is derived from are false
    cases op with
    | add | subtract | multiply | divide | equal | less | greater => cases hop
    | notEqual => exact absurd rfl hne
    | lessEqual | greaterEqual =>
      cases hop
      exact ⟨BinaryOp.apply_unordered rfl line hnan, BinaryOp.apply_unordered rfl line hnan⟩

open PoolMachine Machine in
/-- Negative zero is at most zero, and the code of `<=` says so. -/
theorem derived_comparisons_zeros :
    let low : Value := .double (-0.0)
    let high : Value := .double 0.0
    let code : Code PoolOp := Code.plain 1 (PoolOp.ofBinary .lessEqual)
    let m : PoolMachine := { PoolMachine.start with stack := [high, low] }
    BinaryOp.lessEqual.negated? = some .greater ∧ low.unordered high = false ∧
      BinaryOp.greater.apply 1 low high = .ok (.bool false) ∧
      run (step (.ofCode #[] code)) 2 m = (.running, { m with pc := 2, stack := [.bool true] }) := by
  intro low high code m
  have hordered : low.unordered high = false := rfl
  have hholds : (Chunk.ofCode #[] code).Holds m.pc code := by
    apply Chunk.holds_ofCode PoolOp.ofByte?_byte
    intro i hi
    have hop : i = { op := .greater, arg := 0, line := 1 } ∨
        i = { op := .not, arg := 0, line := 1 } := by
      simpa [code, Code.plain, Code.onLine, PoolOp.ofBinary] using hi
    rcases hop with rfl | rfl
    · exact .of_fits rfl (by decide)
    · exact .of_fits rfl (by decide)
  have hderived := (@derived_comparisons .lessEqual _ rfl 1 low high).1 (.inr hordered)
  have htrue : BinaryOp.lessEqual.apply 1 low high = .ok (.bool true) := rfl
  refine ⟨rfl, hordered, (hderived.1 true).mp htrue, ?_⟩
  exact (hderived.2 _ m [] rfl hholds).1 _ htrue

open PoolMachine Machine in
/-- A NaN is not at most itself, and it is not above itself either. So `<=` is not the negation of `>`,
`>=` is not the negation of `<`, and the code of `<=` makes it true. -/
theorem nan_comparisons_not_derived :
    let nan : Value := .double (Float.ofBits 0x7ff8000000000000)
    let code : Code PoolOp := Code.plain 1 (PoolOp.ofBinary .lessEqual)
    let m : PoolMachine := { PoolMachine.start with stack := [nan, nan] }
    ¬ (BinaryOp.lessEqual.apply 1 nan nan = .ok (.bool false) ↔
        BinaryOp.greater.apply 1 nan nan = .ok (.bool !false)) ∧
      ¬ (BinaryOp.greaterEqual.apply 1 nan nan = .ok (.bool false) ↔
        BinaryOp.less.apply 1 nan nan = .ok (.bool !false)) ∧
      (run (step (.ofCode #[] code)) 2 m).2.stack = [.bool true] := by
  intro nan code m
  have hlessEqual : BinaryOp.lessEqual.apply 1 nan nan = .ok (.bool false) := rfl
  have hgreaterEqual : BinaryOp.greaterEqual.apply 1 nan nan = .ok (.bool false) := rfl
  refine ⟨?_, ?_, rfl⟩
  · intro h
    cases h.mp hlessEqual
  · intro h
    cases h.mp hgreaterEqual

end Scriptlet
