import Scriptlet.Gen.Backend
import Scriptlet.Proofs.Encoding

/-! # What code generation emits

The walk over a program either fails or emits code. Where it succeeds, the code is a fixed arrangement
of the code of the parts, and the relations below say which one: `Emits` for expressions, `EmitsStmt`
and `EmitsAll` for statements. They mention the state before and after, so that properties of generated
code are proved by induction on them, and the walk itself is opened only here.
-/

namespace Scriptlet

variable {ω ν : Type}

/-! ## Steps of generation -/

/-- Instructions with their arguments, attributed to a line. -/
def Code.onLine (line : Nat) (ops : List (ω × Int)) : Code ω :=
  ops.map fun (op, arg) => { op, arg, line }

/-- Instructions without operands, attributed to a line. -/
def Code.plain (line : Nat) (ops : List ω) : Code ω :=
  Code.onLine line (ops.map fun op => (op, 0))

@[simp]
theorem Code.size_onLine_nil [Opcode ω] (line : Nat) :
    Code.size (Code.onLine line ([] : List (ω × Int))) = 0 :=
  rfl

@[simp]
theorem Code.size_onLine_cons [Opcode ω] (line : Nat) (op : ω) (arg : Int) (ops : List (ω × Int)) :
    Code.size (Code.onLine line ((op, arg) :: ops))
      = Opcode.width op + Code.size (Code.onLine line ops) := by
  simp [Code.onLine, Instr.width]

/-- The state in which the code to come belongs to a line. -/
def GenState.onLine (s : GenState ν) (line : Nat) : GenState ν :=
  { s with line }

/-- The state with other variables. -/
def GenState.withVars (s : GenState ν) (vars : ν) : GenState ν :=
  { s with vars }

namespace GenState

@[simp]
theorem onLine_pool (s : GenState ν) (line : Nat) : (s.onLine line).pool = s.pool :=
  rfl

@[simp]
theorem onLine_vars (s : GenState ν) (line : Nat) : (s.onLine line).vars = s.vars :=
  rfl

@[simp]
theorem onLine_line (s : GenState ν) (line : Nat) : (s.onLine line).line = line :=
  rfl

@[simp]
theorem withVars_pool (s : GenState ν) (vars : ν) : (s.withVars vars).pool = s.pool :=
  rfl

@[simp]
theorem withVars_vars (s : GenState ν) (vars : ν) : (s.withVars vars).vars = vars :=
  rfl

end GenState

namespace Gen

variable {α β : Type} {s t : GenState ν}

/-- Can code belong to the line? -/
def Carries (line : Nat) : Prop :=
  0 < line ∧ line ≤ maxLine

/-- Steps in sequence succeed if they do so one after the other. -/
theorem bind_eq_ok {m : Gen ν α} {f : α → Gen ν β} {r : β × GenState ν} :
    (m >>= f) s = .ok r ↔ ∃ a t, m s = .ok (a, t) ∧ f a t = .ok r := by
  rcases h : m s with e | ⟨a, t⟩ <;> simp only [bind, StateT.bind, Except.bind, h]
  · simp
  · constructor
    · intro hf
      exact ⟨a, t, rfl, hf⟩
    · rintro ⟨_, _, ⟨⟩, hf⟩
      exact hf

/-- A step that only gives a result succeeds and leaves the state as it is. -/
theorem pure_eq_ok {a : α} {r : α × GenState ν} :
    (pure a : Gen ν α) s = .ok r ↔ r = (a, s) := by
  show Except.ok (a, s) = .ok r ↔ _
  rw [Except.ok.injEq, eq_comm]

theorem pure_bind_eq_ok {a : α} {f : α → Gen ν β} {r : β × GenState ν} :
    (pure a >>= f) s = .ok r ↔ f a s = .ok r :=
  Iff.rfl

/-- A failure is no success. -/
theorem failHere_ne_ok {error : Nat → GenError} {r : α × GenState ν} :
    (failHere error : Gen ν α) s ≠ .ok r := by
  intro h
  cases h

/-- A line that code can carry becomes the current one. -/
theorem setLine_eq_ok {line : Nat} (h : Carries line) (s : GenState ν) :
    (setLine line : Gen ν Unit) s = .ok ((), s.onLine line) := by
  have hline : ¬ (line = 0 ∨ maxLine < line) := by
    unfold Carries at h
    omega
  simp only [setLine, if_neg hline]
  rfl

/-- What follows the setting of a line starts on it, if code can carry the line. -/
theorem setLine_bind_eq_ok {line : Nat} {f : Unit → Gen ν β} {r : β × GenState ν} :
    (setLine line >>= f) s = .ok r ↔ Carries line ∧ f () (s.onLine line) = .ok r := by
  -- the two conditions on a line are those of `Carries`
  by_cases h : line = 0 ∨ maxLine < line
  · have hline : ¬ Carries line := by unfold Carries; omega
    have hfail : (setLine line : Gen ν Unit) s = .error (.unknownLine line) := by
      simp only [setLine, if_pos h]
      rfl
    simp [bind_eq_ok, hfail, hline]
  · have hline : Carries line := by unfold Carries; omega
    rw [bind_eq_ok, setLine_eq_ok hline]
    constructor
    · rintro ⟨_, _, ⟨⟩, hf⟩
      exact ⟨hline, hf⟩
    · rintro ⟨-, hf⟩
      exact ⟨_, _, rfl, hf⟩

/-- What the target remembers can be looked up anywhere. -/
theorem vars_bind_eq_ok {f : ν → Gen ν β} {r : β × GenState ν} :
    (vars >>= f) s = .ok r ↔ f s.vars s = .ok r :=
  Iff.rfl

/-- What the target remembers can be replaced anywhere. -/
theorem setVars_bind_eq_ok {v : ν} {f : Unit → Gen ν β} {r : β × GenState ν} :
    (setVars v >>= f) s = .ok r ↔ f () (s.withVars v) = .ok r :=
  Iff.rfl

/-- Instructions are made on the current line and change nothing else. -/
theorem instrs_eq_ok {ops : List (ω × Int)} {r : Code ω × GenState ν} :
    (instrs ops : Gen ν (Code ω)) s = .ok r ↔ r = (Code.onLine s.line ops, s) :=
  pure_eq_ok

theorem instrs_bind_eq_ok {ops : List (ω × Int)} {f : Code ω → Gen ν β} {r : β × GenState ν} :
    (instrs ops >>= f) s = .ok r ↔ f (Code.onLine s.line ops) s = .ok r :=
  Iff.rfl

/-- Instructions without operands are made on the current line. -/
theorem plain_bind_eq_ok {ops : List ω} {f : Code ω → Gen ν β} {r : β × GenState ν} :
    (plain ops >>= f) s = .ok r ↔ f (Code.plain s.line ops) s = .ok r :=
  Iff.rfl

variable [Opcode ω]

/-- A jump is made if its operand can hold the displacement. -/
theorem jumpBy_bind_eq_ok {op : ω} {displacement : Int} {f : Code ω → Gen ν β}
    {r : β × GenState ν} :
    (jumpBy op displacement >>= f) s = .ok r ↔
      (Opcode.layout op).fits displacement = true ∧
        f (Code.onLine s.line [(op, displacement)]) s = .ok r := by
  unfold jumpBy
  by_cases h : (Opcode.layout op).fits displacement = true
  · simp only [h, true_and]
    exact instrs_bind_eq_ok
  · simp [bind_eq_ok, h, failHere_ne_ok]

end Gen

/-! ## The code of expressions -/

namespace Backend

variable [Opcode ω] (b : Backend ω ν)

/-- The jump that is taken when the left operand decides. -/
def shortCutJump : LogicalOp → ω
  | .and => b.jumpUnless
  | .or => b.jumpIf.2

/-- What leads up to that jump. -/
def shortCutLead : LogicalOp → List (ω × Int)
  | .and => []
  | .or => b.jumpIf.1

/-- A conditional jump is made, with what leads up to it, if its operand can hold the displacement.
-/
theorem shortCut_bind_eq_ok {β : Type} {op : LogicalOp} {displacement : Int} {s : GenState ν}
    {f : Code ω → Gen ν β} {r : β × GenState ν} :
    (b.shortCut op displacement >>= f) s = .ok r ↔
      (Opcode.layout (b.shortCutJump op)).fits displacement = true ∧
        f (Code.onLine s.line (b.shortCutLead op ++ [(b.shortCutJump op, displacement)])) s
          = .ok r := by
  cases op with
  | and => exact Gen.jumpBy_bind_eq_ok
  | or =>
      have hcode : Code.onLine s.line (b.shortCutLead .or ++ [(b.shortCutJump .or, displacement)])
          = Code.onLine s.line b.jumpIf.1 ++ Code.onLine s.line [(b.jumpIf.2, displacement)] := by
        simp [Code.onLine, shortCutLead, shortCutJump]
      rw [hcode]
      simp only [shortCut, bind_assoc, pure_bind]
      exact Gen.instrs_bind_eq_ok.trans Gen.jumpBy_bind_eq_ok

/-- From the state `s`, the walk over an expression emits code that leaves a value of a kind, and ends
in the state `t`. -/
inductive Emits : (s : GenState ν) → Expr → StaticKind → Code ω → (t : GenState ν) → Prop
  | literal {s t line value code} :
      Gen.Carries line →
      b.literal value (s.onLine line) = .ok (code, t) →
      Emits s (.literal line value) (.known value.kind) code t
  | group {s t line inner kind code} :
      Emits s inner kind code t →
      Emits s (.group line inner) kind code t
  | unary {s t line op operand kind code result} :
      Emits s operand kind code t →
      Gen.Carries line →
      StaticKind.ofUnary? op kind = some result →
      Emits s (.unary line op operand) result (code ++ Code.plain line [b.unary op])
        (t.onLine line)
  | binary {s t u line op left right leftKind rightKind leftCode rightCode result} :
      Emits s left leftKind leftCode t →
      Emits t right rightKind rightCode u →
      Gen.Carries line →
      StaticKind.ofBinary? b.strings op leftKind rightKind = some result →
      Emits s (.binary line op left right) result
        (leftCode ++ (rightCode ++ Code.plain line (b.binary op))) (u.onLine line)
  | ident {s t line name code} :
      Gen.Carries line →
      b.fetch name (s.onLine line) = .ok (code, t) →
      Emits s (.ident line name) .unknown code t
  | assign {s t u line name value kind code store} :
      Emits s value kind code t →
      Gen.Carries line →
      b.store name (t.onLine line) = .ok (store, u) →
      Emits s (.assign line name value) .unknown (code ++ store) u
  | logical {s t u line op left right leftKind rightKind leftCode rightCode skipped} :
      Emits s left leftKind leftCode t →
      Gen.Carries line →
      Emits (t.onLine line) right rightKind rightCode u →
      skipped = Code.plain line [b.pop] ++ rightCode →
      (Opcode.layout (b.shortCutJump op)).fits (Code.size skipped) = true →
      Emits s (.logical line op left right) .unknown
        [leftCode, Code.plain line b.keep,
          Code.onLine line (b.shortCutLead op ++ [(b.shortCutJump op, (Code.size skipped : Int))]),
          skipped].flatten
        (u.onLine line)

/-- Where the walk over an expression succeeds, `Emits` says what it emits. -/
theorem emits_of_expr {e : Expr} {s t : GenState ν} {kind : StaticKind} {code : Code ω}
    (h : b.expr e s = .ok ((kind, code), t)) : b.Emits s e kind code t := by
  -- along the expression: each step of the walk that succeeds is taken apart, in the order of the
  -- walk
  induction e generalizing s t kind code with
  | literal line value =>
      obtain ⟨hline, h⟩ := Gen.setLine_bind_eq_ok.mp h
      obtain ⟨_, _, hcode, h⟩ := Gen.bind_eq_ok.mp h
      cases Gen.pure_eq_ok.mp h
      exact .literal hline hcode
  | group line inner ih =>
      exact .group (ih h)
  | unary line op operand ih =>
      obtain ⟨⟨operandKind, _⟩, _, hoperand, h⟩ := Gen.bind_eq_ok.mp h
      obtain ⟨hline, h⟩ := Gen.setLine_bind_eq_ok.mp h
      cases hkind : StaticKind.ofUnary? op operandKind with
      | none =>
          simp only [hkind] at h
          cases h
      | some result =>
          simp only [hkind, Gen.plain_bind_eq_ok] at h
          cases Gen.pure_eq_ok.mp h
          exact .unary (ih hoperand) hline hkind
  | binary line op left right ihLeft ihRight =>
      obtain ⟨⟨leftKind, _⟩, _, hleft, h⟩ := Gen.bind_eq_ok.mp h
      obtain ⟨⟨rightKind, _⟩, _, hright, h⟩ := Gen.bind_eq_ok.mp h
      obtain ⟨hline, h⟩ := Gen.setLine_bind_eq_ok.mp h
      cases hkind : StaticKind.ofBinary? b.strings op leftKind rightKind with
      | none =>
          simp only [hkind] at h
          cases h
      | some result =>
          simp only [hkind, Gen.plain_bind_eq_ok] at h
          cases Gen.pure_eq_ok.mp h
          exact .binary (ihLeft hleft) (ihRight hright) hline hkind
  | ident line name =>
      obtain ⟨hline, h⟩ := Gen.setLine_bind_eq_ok.mp h
      obtain ⟨_, _, hcode, h⟩ := Gen.bind_eq_ok.mp h
      cases Gen.pure_eq_ok.mp h
      exact .ident hline hcode
  | assign line name value ih =>
      obtain ⟨⟨_, _⟩, _, hvalue, h⟩ := Gen.bind_eq_ok.mp h
      obtain ⟨hline, h⟩ := Gen.setLine_bind_eq_ok.mp h
      obtain ⟨_, _, hstore, h⟩ := Gen.bind_eq_ok.mp h
      cases Gen.pure_eq_ok.mp h
      exact .assign (ih hvalue) hline hstore
  | logical line op left right ihLeft ihRight =>
      obtain ⟨⟨_, _⟩, _, hleft, h⟩ := Gen.bind_eq_ok.mp h
      obtain ⟨hline, h⟩ := Gen.setLine_bind_eq_ok.mp h
      -- what is kept and popped is made before the right operand is walked, and cannot fail
      have h := Gen.plain_bind_eq_ok.mp h
      have h := Gen.plain_bind_eq_ok.mp h
      obtain ⟨⟨_, _⟩, _, hright, h⟩ := Gen.bind_eq_ok.mp h
      obtain ⟨-, h⟩ := Gen.setLine_bind_eq_ok.mp h
      obtain ⟨hfits, h⟩ := b.shortCut_bind_eq_ok.mp h
      cases Gen.pure_eq_ok.mp h
      exact .logical (ihLeft hleft) hline (ihRight hright) rfl hfits

/-! ## The code of statements -/

mutual

/-- From the state `s`, the walk over a statement emits code, and ends in the state `t`. -/
inductive EmitsStmt : (s : GenState ν) → Stmt → Code ω → (t : GenState ν) → Prop
  | print {s t line value kind code} :
      b.Emits s value kind code t →
      Gen.Carries line →
      EmitsStmt s (.print line value) (code ++ Code.plain line [b.print]) (t.onLine line)
  | expression {s t line value kind code} :
      b.Emits s value kind code t →
      Gen.Carries line →
      EmitsStmt s (.expression line value) (code ++ Code.plain line [b.pop]) (t.onLine line)
  | var {s t u line name initial kind code declare} :
      b.Emits s initial kind code t →
      Gen.Carries line →
      b.declare name (t.onLine line) = .ok (declare, u) →
      EmitsStmt s (.var line name (some initial)) (code ++ declare) u
  | varUnset {s t line name declare} :
      Gen.Carries line →
      b.declare name (s.onLine line) = .ok (declare, t) →
      EmitsStmt s (.var line name none) (Code.onLine line [b.unset] ++ declare) t
  | block {s t line body code} :
      EmitsAll (s.withVars (b.enter s.vars)) body code t →
      Gen.Carries line →
      EmitsStmt s (.block line body)
        (code ++ Code.plain line (List.replicate (b.leave t.vars).1 b.pop))
        ((t.onLine line).withVars (b.leave t.vars).2)
  | ifThen {s t u v line condition yes no kind conditionCode yesCode noCode drop jump} :
      b.Emits s condition kind conditionCode t →
      Gen.Carries line →
      EmitsStmt (t.onLine line) yes yesCode u →
      EmitsElse line (u.onLine line) no noCode v →
      drop = Code.plain line b.drop →
      jump = (Opcode.width b.jump : Int) →
      (Opcode.layout b.jumpUnless).fits (Code.size (drop ++ yesCode) + jump) = true →
      (Opcode.layout b.jump).fits (Code.size (drop ++ noCode)) = true →
      EmitsStmt s (.ifThen line condition yes no)
        [conditionCode, Code.onLine line [(b.jumpUnless, Code.size (drop ++ yesCode) + jump)],
          drop, yesCode, Code.onLine line [(b.jump, (Code.size (drop ++ noCode) : Int))],
          drop, noCode].flatten
        v
  | whileDo {s t u line condition body kind conditionCode bodyCode drop inside} :
      b.Emits s condition kind conditionCode t →
      Gen.Carries line →
      EmitsStmt (t.onLine line) body bodyCode u →
      drop = Code.plain line b.drop →
      inside = Code.size (drop ++ bodyCode) + Opcode.width b.loop →
      (Opcode.layout b.loop).fits
        (-((Code.size conditionCode + Opcode.width b.jumpUnless + inside : Nat) : Int)) = true →
      (Opcode.layout b.jumpUnless).fits inside = true →
      EmitsStmt s (.whileDo line condition body)
        [conditionCode, Code.onLine line [(b.jumpUnless, (inside : Int))], drop, bodyCode,
          Code.onLine line
            [(b.loop, -((Code.size conditionCode + Opcode.width b.jumpUnless + inside : Nat) : Int))],
          drop].flatten
        (u.onLine line)

/-- From the state `s`, the walk over the alternative of a conditional emits code, none if there is no
alternative, and ends in the state `t` on the line of the conditional. -/
inductive EmitsElse : Nat → (s : GenState ν) → Option Stmt → Code ω → (t : GenState ν) → Prop
  | none {line s} : EmitsElse line s none [] s
  | some {line s t no code} :
      EmitsStmt s no code t →
      EmitsElse line s (some no) code (t.onLine line)

/-- From the state `s`, the walk over a sequence of statements emits code, and ends in the state `t`. -/
inductive EmitsAll : (s : GenState ν) → List Stmt → Code ω → (t : GenState ν) → Prop
  | nil {s} : EmitsAll s [] [] s
  | cons {s t u first rest code codes} :
      EmitsStmt s first code t →
      EmitsAll t rest codes u →
      EmitsAll s (first :: rest) (code ++ codes) u

end

mutual

/-- Where the walk over a statement succeeds, `EmitsStmt` says what it emits. -/
theorem emitsStmt_of_stmt {st : Stmt} {s t : GenState ν} {code : Code ω}
    (h : b.stmt st s = .ok (code, t)) : b.EmitsStmt s st code t := by
  match st with
  | .print line value =>
      obtain ⟨⟨_, _⟩, _, hvalue, h⟩ := Gen.bind_eq_ok.mp h
      obtain ⟨hline, h⟩ := Gen.setLine_bind_eq_ok.mp h
      have h := Gen.plain_bind_eq_ok.mp h
      cases Gen.pure_eq_ok.mp h
      exact .print (b.emits_of_expr hvalue) hline
  | .expression line value =>
      obtain ⟨⟨_, _⟩, _, hvalue, h⟩ := Gen.bind_eq_ok.mp h
      obtain ⟨hline, h⟩ := Gen.setLine_bind_eq_ok.mp h
      have h := Gen.plain_bind_eq_ok.mp h
      cases Gen.pure_eq_ok.mp h
      exact .expression (b.emits_of_expr hvalue) hline
  | .var line name (some initial) =>
      obtain ⟨⟨_, _⟩, _, hvalue, h⟩ := Gen.bind_eq_ok.mp h
      obtain ⟨hline, h⟩ := Gen.setLine_bind_eq_ok.mp h
      obtain ⟨_, _, hdeclare, h⟩ := Gen.bind_eq_ok.mp h
      cases Gen.pure_eq_ok.mp h
      exact .var (b.emits_of_expr hvalue) hline hdeclare
  | .var line name none =>
      obtain ⟨hline, h⟩ := Gen.setLine_bind_eq_ok.mp h
      obtain ⟨_, _, hdeclare, h⟩ := Gen.bind_eq_ok.mp (Gen.instrs_bind_eq_ok.mp h)
      cases Gen.pure_eq_ok.mp h
      exact .varUnset hline hdeclare
  | .block line body =>
      have h := Gen.vars_bind_eq_ok.mp h
      have h := Gen.setVars_bind_eq_ok.mp h
      obtain ⟨_, u, hbody, h⟩ := Gen.bind_eq_ok.mp h
      obtain ⟨hline, h⟩ := Gen.setLine_bind_eq_ok.mp h
      have h := Gen.vars_bind_eq_ok.mp h
      have h := Gen.setVars_bind_eq_ok.mp h
      have h := Gen.plain_bind_eq_ok.mp h
      cases Gen.pure_eq_ok.mp h
      obtain ⟨code, rfl, hcode⟩ := emitsAll_of_stmts hbody
      exact .block (t := u) hcode hline
  | .ifThen line condition yes none =>
      obtain ⟨⟨_, _⟩, _, hcondition, h⟩ := Gen.bind_eq_ok.mp h
      obtain ⟨hline, h⟩ := Gen.setLine_bind_eq_ok.mp h
      obtain ⟨_, _, hyes, h⟩ := Gen.bind_eq_ok.mp (Gen.plain_bind_eq_ok.mp h)
      obtain ⟨-, h⟩ := Gen.setLine_bind_eq_ok.mp h
      obtain ⟨htoElse, h⟩ := Gen.jumpBy_bind_eq_ok.mp h
      have h := Gen.pure_bind_eq_ok.mp h
      obtain ⟨htoEnd, h⟩ := Gen.jumpBy_bind_eq_ok.mp h
      cases Gen.pure_eq_ok.mp h
      exact .ifThen (b.emits_of_expr hcondition) hline (emitsStmt_of_stmt hyes) .none rfl rfl
        htoElse htoEnd
  | .ifThen line condition yes (some no) =>
      obtain ⟨⟨_, _⟩, _, hcondition, h⟩ := Gen.bind_eq_ok.mp h
      obtain ⟨hline, h⟩ := Gen.setLine_bind_eq_ok.mp h
      obtain ⟨_, _, hyes, h⟩ := Gen.bind_eq_ok.mp (Gen.plain_bind_eq_ok.mp h)
      obtain ⟨-, h⟩ := Gen.setLine_bind_eq_ok.mp h
      obtain ⟨htoElse, h⟩ := Gen.jumpBy_bind_eq_ok.mp h
      obtain ⟨_, _, hno, h⟩ := Gen.bind_eq_ok.mp h
      obtain ⟨-, h⟩ := Gen.setLine_bind_eq_ok.mp h
      have h := Gen.pure_bind_eq_ok.mp h
      obtain ⟨htoEnd, h⟩ := Gen.jumpBy_bind_eq_ok.mp h
      cases Gen.pure_eq_ok.mp h
      exact .ifThen (b.emits_of_expr hcondition) hline (emitsStmt_of_stmt hyes)
        (.some (emitsStmt_of_stmt hno)) rfl rfl htoElse htoEnd
  | .whileDo line condition body =>
      obtain ⟨⟨_, _⟩, _, hcondition, h⟩ := Gen.bind_eq_ok.mp h
      obtain ⟨hline, h⟩ := Gen.setLine_bind_eq_ok.mp h
      obtain ⟨_, _, hbody, h⟩ := Gen.bind_eq_ok.mp (Gen.plain_bind_eq_ok.mp h)
      obtain ⟨-, h⟩ := Gen.setLine_bind_eq_ok.mp h
      obtain ⟨hagain, h⟩ := Gen.jumpBy_bind_eq_ok.mp h
      obtain ⟨htoEnd, h⟩ := Gen.jumpBy_bind_eq_ok.mp h
      cases Gen.pure_eq_ok.mp h
      exact .whileDo (b.emits_of_expr hcondition) hline (emitsStmt_of_stmt hbody) rfl rfl hagain
        htoEnd

/-- The walk over a sequence of statements emits its code behind the code that is done. -/
theorem emitsAll_of_stmts {sts : List Stmt} {done : List (Code ω)} {s t : GenState ν}
    {code : Code ω} (h : b.stmts sts done s = .ok (code, t)) :
    ∃ rest, code = done.reverse.flatten ++ rest ∧ b.EmitsAll s sts rest t := by
  match sts with
  | [] =>
      cases Gen.pure_eq_ok.mp h
      exact ⟨[], by simp, .nil⟩
  | first :: rest =>
      obtain ⟨code, _, hfirst, hrest⟩ := Gen.bind_eq_ok.mp h
      obtain ⟨codes, rfl, hcodes⟩ := emitsAll_of_stmts hrest
      exact ⟨code ++ codes, by simp, .cons (emitsStmt_of_stmt hfirst) hcodes⟩

end

/-! ## Whole chunks -/

/-- The state before anything is generated. -/
def start : GenState ν :=
  { line := 1, pool := #[], vars := b.fresh }

/-- A step that fails gives no chunk. -/
theorem assemble_eq_error {step : Gen ν (Code ω)} {e : GenError} (h : step b.start = .error e) :
    b.assemble step = .error e := by
  have h : step { line := 1, pool := #[], vars := b.fresh } = .error e := h
  simp only [assemble, StateT.run, bind, StateT.bind, Except.bind, h]

/-- The code of a step, with the end of the program behind it, becomes a chunk beside the constants. -/
theorem assemble_eq_ok {step : Gen ν (Code ω)} {code : Code ω} {t : GenState ν}
    (h : step b.start = .ok (code, t)) (hlines : ∀ i ∈ code, 0 ≤ i.line) :
    b.assemble step = .ok (Chunk.ofCode t.pool (code ++ Code.plain t.line [b.stop])) := by
  have hrun : (do return (← step) ++ (← Gen.plain [b.stop]) : Gen ν (Code ω)) b.start
      = .ok (code ++ Code.plain t.line [b.stop], t) := by
    refine Gen.bind_eq_ok.mpr ⟨code, t, h, ?_⟩
    exact Gen.plain_bind_eq_ok.mpr rfl
  -- the end of the program is on a line of the walk as well
  have hended : ∀ i ∈ code ++ Code.plain t.line [b.stop], 0 ≤ i.line := by
    intro i hi
    rcases List.mem_append.mp hi with hi | hi
    · exact hlines i hi
    · rcases List.mem_singleton.mp hi with rfl
      exact Int.natCast_nonneg _
  have hwrite : Chunk.writeCode { Chunk.empty with pool := t.pool }
      (code ++ Code.plain t.line [b.stop]) = .ok (Chunk.ofCode t.pool _) :=
    Chunk.writeCode_eq hended
  rw [start] at hrun
  simp only [assemble, StateT.run, hrun]
  simp only [bind, Except.bind, hwrite]
  rfl

end Backend

end Scriptlet
