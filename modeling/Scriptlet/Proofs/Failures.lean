import Scriptlet.Proofs.Backends

/-! # Where code generation fails

The walk over an expression fails at one of its nodes, behind the code of the operands of that node.
`FailsAt` says what can go wrong there: the node's line cannot be carried by code, its backend has no
code for it, its operands have kinds that it never takes, or it would jump too far. `FailsIn` leads from
the state in front of the expression to the state in which the node fails. The backends fail for a few
reasons each, and those are listed here too.
-/

namespace Scriptlet

/-- An expression and all expressions that it is made of. -/
def Expr.parts : Expr → List Expr
  | literal line value => [literal line value]
  | group line inner => group line inner :: inner.parts
  | unary line op operand => unary line op operand :: operand.parts
  | binary line op left right => binary line op left right :: (left.parts ++ right.parts)
  | ident line name => [ident line name]
  | assign line name value => assign line name value :: value.parts
  | logical line op left right => logical line op left right :: (left.parts ++ right.parts)

theorem Expr.mem_parts_self (e : Expr) : e ∈ e.parts := by
  cases e <;> simp [Expr.parts]

variable {ω ν : Type}

/-! ## Steps that fail -/

namespace Gen

variable {α β : Type} {s : GenState ν} {error : GenError}

/-- A sequence fails in its first part or in its second one. -/
theorem bind_eq_error {m : Gen ν α} {f : α → Gen ν β} (h : (m >>= f) s = .error error) :
    m s = .error error ∨ ∃ a t, m s = .ok (a, t) ∧ f a t = .error error := by
  rcases hm : m s with e | ⟨a, t⟩ <;> simp only [bind, StateT.bind, Except.bind, hm] at h
  · cases h
    exact .inl rfl
  · exact .inr ⟨a, t, rfl, h⟩

/-- A step that fails ends what follows it. -/
theorem bind_eq_of_error {m : Gen ν α} {f : α → Gen ν β} (h : m s = .error error) :
    (m >>= f) s = .error error := by
  simp only [bind, StateT.bind, Except.bind, h]

/-- A step that succeeds is followed by the next one. -/
theorem bind_eq_of_ok {m : Gen ν α} {f : α → Gen ν β} {a : α} {t : GenState ν}
    (h : m s = .ok (a, t)) : (m >>= f) s = f a t := by
  simp only [bind, StateT.bind, Except.bind, h]

/-- What is done with the result of a step cannot fail. -/
theorem map_eq_error {m : Gen ν α} {f : α → β}
    (h : (do return f (← m) : Gen ν β) s = .error error) : m s = .error error := by
  rcases bind_eq_error h with hm | ⟨a, t, -, hpure⟩
  · exact hm
  · cases hpure

/-- Instructions made of the result of a step cannot fail. -/
theorem bind_instrs_eq_error {m : Gen ν α} {f : α → List (ω × Int)}
    (h : (m >>= fun a => instrs (f a)) s = .error error) : m s = .error error := by
  rcases bind_eq_error h with hm | ⟨a, t, -, hinstrs⟩
  · exact hm
  · cases hinstrs

/-- Behind a change of the line, a step fails for the line or for a reason of its own. -/
theorem setLine_bind_eq_error {line : Nat} {f : Unit → Gen ν β}
    (h : (setLine line >>= f) s = .error error) :
    ¬ Carries line ∧ error = .unknownLine line ∨ f () (s.onLine line) = .error error := by
  by_cases hline : Carries line
  · rcases bind_eq_error h with hset | ⟨_, t, hset, hf⟩
    · rw [setLine_eq_ok hline] at hset
      cases hset
    · rw [setLine_eq_ok hline] at hset
      cases hset
      exact .inr hf
  -- a line that no operand can carry is refused before anything else is done
  · have hbad : line = 0 ∨ maxLine < line := by
      unfold Carries at hline
      omega
    have hset : (setLine line : Gen ν Unit) s = .error (.unknownLine line) := by
      simp only [setLine, if_pos hbad]
      rfl
    rcases bind_eq_error h with hset' | ⟨_, t, hset', _⟩
    · rw [hset] at hset'
      cases hset'
      exact .inl ⟨hline, rfl⟩
    · rw [hset] at hset'
      cases hset'

theorem pure_bind_eq_error {a : α} {f : α → Gen ν β} :
    (pure a >>= f) s = .error error ↔ f a s = .error error :=
  Iff.rfl

theorem vars_bind_eq_error {f : ν → Gen ν β} :
    (vars >>= f) s = .error error ↔ f s.vars s = .error error :=
  Iff.rfl

theorem setVars_bind_eq_error {v : ν} {f : Unit → Gen ν β} :
    (setVars v >>= f) s = .error error ↔ f () (s.withVars v) = .error error :=
  Iff.rfl

theorem instrs_bind_eq_error {ops : List (ω × Int)} {f : Code ω → Gen ν β} :
    (instrs ops >>= f) s = .error error ↔ f (Code.onLine s.line ops) s = .error error :=
  Iff.rfl

theorem plain_bind_eq_error {ops : List ω} {f : Code ω → Gen ν β} :
    (plain ops >>= f) s = .error error ↔ f (Code.plain s.line ops) s = .error error :=
  Iff.rfl

/-- A jump is refused if its operand cannot hold the displacement, and the error tells what would be
stored. -/
theorem jumpBy_eq_error [Opcode ω] {op : ω} {displacement : Int}
    (h : (jumpBy op displacement : Gen ν (Code ω)) s = .error error) :
    (Opcode.layout op).fits displacement = false ∧
      error = .jumpTooLarge ((Opcode.layout op).stored displacement) s.line := by
  unfold jumpBy at h
  cases hfits : (Opcode.layout op).fits displacement with
  | true =>
    simp only [hfits] at h
    cases h
  | false =>
    simp only [hfits] at h
    cases h
    exact ⟨rfl, rfl⟩

/-- A constant is refused only by a full pool. -/
theorem addConstant_eq_error {v : Value} (h : (addConstant v : Gen ν Nat) s = .error error) :
    Pool.limit ≤ s.pool.size ∧ error = .tooManyConstants Pool.limit s.line := by
  rw [addConstant_eq] at h
  split at h
  · cases h
  · cases h
    exact ⟨by omega, rfl⟩

end Gen

/-! ## Nodes that fail -/

namespace Backend

variable [Opcode ω] (b : Backend ω ν)

/-- From the state `s` in front of the operands of an expression, the walk gets past its operands and
fails at the expression itself. -/
inductive FailsAt : (s : GenState ν) → Expr → GenError → Prop
  | line {s e} :
      ¬ Gen.Carries e.line →
      FailsAt s e (.unknownLine e.line)
  | literal {s line value error} :
      b.literal value (s.onLine line) = .error error →
      FailsAt s (.literal line value) error
  | unary {s t line op operand kind code} :
      b.Emits s operand kind code t →
      StaticKind.ofUnary? op kind = none →
      FailsAt s (.unary line op operand) (.invalidOperands (.unary op) [kind] line)
  | binary {s t u line op left right leftKind rightKind leftCode rightCode} :
      b.Emits s left leftKind leftCode t →
      b.Emits t right rightKind rightCode u →
      StaticKind.ofBinary? b.strings op leftKind rightKind = none →
      FailsAt s (.binary line op left right)
        (.invalidOperands (.binary op) [leftKind, rightKind] line)
  | ident {s line name error} :
      b.fetch name (s.onLine line) = .error error →
      FailsAt s (.ident line name) error
  | assign {s t line name value kind code error} :
      b.Emits s value kind code t →
      b.store name (t.onLine line) = .error error →
      FailsAt s (.assign line name value) error
  | logical {s t u line op left right leftKind rightKind leftCode rightCode skipped} :
      b.Emits s left leftKind leftCode t →
      b.Emits (t.onLine line) right rightKind rightCode u →
      skipped = Code.plain line [b.pop] ++ rightCode →
      (Opcode.layout (b.shortCutJump op)).fits (Code.size skipped) = false →
      FailsAt s (.logical line op left right)
        (.jumpTooLarge ((Opcode.layout (b.shortCutJump op)).stored (Code.size skipped)) line)

/-- From the state `s`, the walk over an expression fails at the expression itself or on its way through
an operand, where the operands in front of that one have their code. -/
inductive FailsIn : (s : GenState ν) → Expr → GenError → Prop
  | here {s e error} :
      FailsAt b s e error →
      FailsIn s e error
  | group {s line inner error} :
      FailsIn s inner error →
      FailsIn s (.group line inner) error
  | unary {s line op operand error} :
      FailsIn s operand error →
      FailsIn s (.unary line op operand) error
  | binaryLeft {s line op left right error} :
      FailsIn s left error →
      FailsIn s (.binary line op left right) error
  | binaryRight {s t line op left right kind code error} :
      b.Emits s left kind code t →
      FailsIn t right error →
      FailsIn s (.binary line op left right) error
  | assign {s line name value error} :
      FailsIn s value error →
      FailsIn s (.assign line name value) error
  | logicalLeft {s line op left right error} :
      FailsIn s left error →
      FailsIn s (.logical line op left right) error
  | logicalRight {s t line op left right kind code error} :
      b.Emits s left kind code t →
      FailsIn (t.onLine line) right error →
      FailsIn s (.logical line op left right) error

variable {b}

/-- Does the walk fail at a part of the expression, in some state? -/
def FailsWithin (b : Backend ω ν) (e : Expr) (error : GenError) : Prop :=
  ∃ part ∈ e.parts, ∃ s, b.FailsAt s part error

/-- A failure within a part is a failure within the whole. -/
theorem FailsWithin.mono {inner e : Expr} {error : GenError} (h : b.FailsWithin inner error)
    (hparts : inner.parts ⊆ e.parts) : b.FailsWithin e error := by
  rcases h with ⟨part, hpart, s, hfails⟩
  exact ⟨part, hparts hpart, s, hfails⟩

/-- A failure on the way through an expression is one within it. -/
theorem FailsIn.within {s : GenState ν} {e : Expr} {error : GenError} (h : b.FailsIn s e error) :
    b.FailsWithin e error := by
  -- on the way to the part that fails
  induction h with
  | @here s e _ hfails => exact ⟨e, e.mem_parts_self, s, hfails⟩
  | group _ ih => exact ih.mono (List.subset_cons_self _ _)
  | unary _ ih => exact ih.mono (List.subset_cons_self _ _)
  | assign _ ih => exact ih.mono (List.subset_cons_self _ _)
  | binaryLeft _ ih => exact ih.mono (List.subset_cons_of_subset _ (List.subset_append_left _ _))
  | logicalLeft _ ih => exact ih.mono (List.subset_cons_of_subset _ (List.subset_append_left _ _))
  | binaryRight _ _ ih =>
    exact ih.mono (List.subset_cons_of_subset _ (List.subset_append_right _ _))
  | logicalRight _ _ ih =>
    exact ih.mono (List.subset_cons_of_subset _ (List.subset_append_right _ _))

/-- A node first sets its line. -/
theorem FailsAt.of_setLine {e : Expr} {s t : GenState ν} {error : GenError} {β : Type}
    {f : Unit → Gen ν β} (h : (Gen.setLine e.line >>= f) t = .error error)
    (hf : f () (t.onLine e.line) = .error error → b.FailsAt s e error) : b.FailsAt s e error := by
  rcases Gen.setLine_bind_eq_error h with ⟨hline, rfl⟩ | h
  · exact .line hline
  · exact hf h

variable (b)

/-- A conditional jump is refused if its operand cannot hold the displacement. -/
theorem shortCut_eq_error {op : LogicalOp} {displacement : Int} {s : GenState ν} {error : GenError}
    (h : b.shortCut op displacement s = .error error) :
    (Opcode.layout (b.shortCutJump op)).fits displacement = false ∧
      error = .jumpTooLarge ((Opcode.layout (b.shortCutJump op)).stored displacement) s.line := by
  cases op with
  | and => exact Gen.jumpBy_eq_error h
  | or => exact Gen.jumpBy_eq_error (Gen.map_eq_error (Gen.instrs_bind_eq_error.mp h))

/-- Where the walk over an expression fails, it fails at the expression or on its way through an
operand. -/
theorem failsIn_of_expr {e : Expr} {s : GenState ν} {error : GenError}
    (h : b.expr e s = .error error) : b.FailsIn s e error := by
  induction e generalizing s with
  | literal line value =>
    apply FailsIn.here
    apply FailsAt.of_setLine h
    intro h
    exact .literal (Gen.map_eq_error h)
  | group line inner ih => exact .group (ih h)
  | unary line op operand ih =>
    rcases Gen.bind_eq_error h with hoperand | ⟨⟨kind, code⟩, t, hoperand, h⟩
    · exact .unary (ih hoperand)
    -- The operand has its code, so the operation itself is at fault.
    apply FailsIn.here
    apply FailsAt.of_setLine h
    intro h
    cases hkind : StaticKind.ofUnary? op kind with
    | some result =>
      simp only [hkind, Gen.plain_bind_eq_error] at h
      cases h
    | none =>
      simp only [hkind] at h
      cases h
      exact .unary (b.emits_of_expr hoperand) hkind
  | binary line op left right ihLeft ihRight =>
    rcases Gen.bind_eq_error h with hleft | ⟨⟨leftKind, leftCode⟩, t, hleft, h⟩
    · exact .binaryLeft (ihLeft hleft)
    rcases Gen.bind_eq_error h with hright | ⟨⟨rightKind, rightCode⟩, u, hright, h⟩
    · exact .binaryRight (b.emits_of_expr hleft) (ihRight hright)
    apply FailsIn.here
    apply FailsAt.of_setLine h
    intro h
    cases hkind : StaticKind.ofBinary? b.strings op leftKind rightKind with
    | some result =>
      simp only [hkind, Gen.plain_bind_eq_error] at h
      cases h
    | none =>
      simp only [hkind] at h
      cases h
      exact .binary (b.emits_of_expr hleft) (b.emits_of_expr hright) hkind
  | ident line name =>
    apply FailsIn.here
    apply FailsAt.of_setLine h
    intro h
    exact .ident (Gen.map_eq_error h)
  | assign line name value ih =>
    rcases Gen.bind_eq_error h with hvalue | ⟨⟨kind, code⟩, t, hvalue, h⟩
    · exact .assign (ih hvalue)
    apply FailsIn.here
    apply FailsAt.of_setLine h
    intro h
    exact .assign (b.emits_of_expr hvalue) (Gen.map_eq_error h)
  | logical line op left right ihLeft ihRight =>
    rcases Gen.bind_eq_error h with hleft | ⟨⟨leftKind, leftCode⟩, t, hleft, h⟩
    · exact .logicalLeft (ihLeft hleft)
    -- The line is set in front of the right operand, which may fail as well.
    rcases Gen.setLine_bind_eq_error h with ⟨hline, rfl⟩ | h
    · exact .here (.line hline)
    have h := Gen.plain_bind_eq_error.mp h
    have h := Gen.plain_bind_eq_error.mp h
    rcases Gen.bind_eq_error h with hright | ⟨⟨rightKind, rightCode⟩, u, hright, h⟩
    · exact .logicalRight (b.emits_of_expr hleft) (ihRight hright)
    apply FailsIn.here
    apply FailsAt.of_setLine h
    intro h
    rcases b.shortCut_eq_error (Gen.map_eq_error h) with ⟨hfits, rfl⟩
    exact .logical (b.emits_of_expr hleft) (b.emits_of_expr hright) rfl hfits

/-- Where the walk over an expression fails, it fails at one of its parts. -/
theorem failsWithin_of_expr {e : Expr} {s : GenState ν} {error : GenError}
    (h : b.expr e s = .error error) : b.FailsWithin e error :=
  (b.failsIn_of_expr h).within

end Backend

/-! ## Backends that fail -/

namespace PoolOp

open Gen PoolVars

variable {s : GenState PoolVars} {error : GenError} {name : String} {v : Value}

/-- A name is refused only by a full pool. -/
theorem nameConstant_eq_error (h : nameConstant name s = .error error) :
    Pool.limit ≤ s.pool.size ∧ error = .tooManyConstants Pool.limit s.line := by
  have h := vars_bind_eq_error.mp h
  cases hname : s.vars.names[name]? with
  -- a name that has a constant needs no other one
  | some index =>
    simp only [hname] at h
    cases h
  | none =>
    simp only [hname] at h
    rcases bind_eq_error h with hadd | ⟨_, _, _, h⟩
    · exact addConstant_eq_error hadd
    · cases h

/-- An access to a variable fails only when there is no room for a name. -/
theorem access_eq_error {onLocal onGlobal : PoolOp}
    (h : access onLocal onGlobal name s = .error error) :
    Pool.limit ≤ s.pool.size ∧ error = .tooManyConstants Pool.limit s.line := by
  have h := vars_bind_eq_error.mp h
  cases hslot : slotOf? name s.vars.locals with
  | some slot =>
    simp only [hslot] at h
    cases h
  | none =>
    simp only [hslot] at h
    exact nameConstant_eq_error (bind_instrs_eq_error h)

/-- A literal fails only when there is no room for its constant. -/
theorem literal_eq_error (h : backend.literal v s = .error error) :
    Pool.limit ≤ s.pool.size ∧ error = .tooManyConstants Pool.limit s.line := by
  cases v with
  | bool b => cases b <;> cases h
  | nil => cases h
  | int _ | double _ | string _ =>
    exact addConstant_eq_error (bind_instrs_eq_error h)

/-- A local variable is refused when there are too many of them. -/
theorem declareLocal_eq_error (h : declareLocal name s = .error error) :
    localLimit ≤ s.vars.locals.length ∧ error = .tooManyLocals s.line := by
  have h := vars_bind_eq_error.mp h
  by_cases hroom : s.vars.locals.length < localLimit
  · rw [if_pos hroom] at h
    cases h
  · rw [if_neg hroom] at h
    cases h
    exact ⟨by omega, rfl⟩

/-- A declaration is refused in a block for the locals that there are, and outside of all blocks by a
full pool. -/
theorem declare_eq_error (h : backend.declare name s = .error error) :
    (localLimit ≤ s.vars.locals.length ∧ error = .tooManyLocals s.line) ∨
      (Pool.limit ≤ s.pool.size ∧ error = .tooManyConstants Pool.limit s.line) := by
  have h := vars_bind_eq_error.mp h
  by_cases hdepth : 0 < s.vars.depth
  · rw [if_pos hdepth] at h
    exact .inl (declareLocal_eq_error (map_eq_error h))
  · rw [if_neg hdepth] at h
    exact .inr (nameConstant_eq_error (bind_instrs_eq_error h))

end PoolOp

namespace WordOp

open Gen WordVars

variable {s : GenState WordVars} {error : GenError} {name : String} {v : Value}

/-- A declaration is refused only for the slots that have been handed out. -/
theorem declare_eq_error (h : backend.declare name s = .error error) :
    slotLimit ≤ s.vars.next ∧ error = .tooManyVariables s.line := by
  have h := vars_bind_eq_error.mp (bind_instrs_eq_error h)
  cases hinner : s.vars.scopes.inner[name]? with
  | some slot =>
    simp only [hinner] at h
    cases h
  | none =>
    simp only [hinner] at h
    by_cases hroom : s.vars.next < slotLimit
    · rw [if_pos hroom] at h
      cases h
    · rw [if_neg hroom] at h
      cases h
      exact ⟨by omega, rfl⟩

/-- A name is refused only if it is in no scope. -/
theorem slot_eq_error (h : slot name s = .error error) :
    s.vars.scopes.find? name = none ∧ error = .undefinedVariable name s.line := by
  have h := vars_bind_eq_error.mp h
  cases hfind : s.vars.scopes.find? name with
  | some n =>
    simp only [hfind] at h
    cases h
  | none =>
    simp only [hfind] at h
    cases h
    exact ⟨rfl, rfl⟩

/-- Reading a variable fails only if it is not declared. -/
theorem fetch_eq_error (h : backend.fetch name s = .error error) :
    s.vars.scopes.find? name = none ∧ error = .undefinedVariable name s.line :=
  slot_eq_error (bind_instrs_eq_error h)

/-- Assigning to a variable fails only if it is not declared. -/
theorem store_eq_error (h : backend.store name s = .error error) :
    s.vars.scopes.find? name = none ∧ error = .undefinedVariable name s.line :=
  slot_eq_error (bind_instrs_eq_error h)

/-- A literal fails only if it has no word. -/
theorem literal_eq_error (h : backend.literal v s = .error error) :
    v.word? = none ∧ error = .unknownLiteral v .word s.line := by
  cases hword : v.word? with
  | some word =>
    simp only [backend, hword] at h
    cases h
  | none =>
    simp only [backend, hword] at h
    cases h
    exact ⟨rfl, rfl⟩

end WordOp

end Scriptlet
