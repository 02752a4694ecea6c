import Scriptlet.Proofs.Backends

/-! # Generated chunks are well formed

Whatever the program, generation either fails with an error that names what is wrong with the program,
or gives a chunk that reads back from its first byte to its last one, in which every jump leads to an
instruction, every constant is in the pool, and the end of the program stands once, at the end.

Jumps are the hard part. Code is built from the inside out, and the displacement of a jump is computed
from the sizes of the pieces around it. The pieces are closed: their own jumps lead to boundaries
between their instructions, or to their end. Closed pieces stay closed in any surroundings, so only the
jumps that are added last have to be looked at.
-/

namespace Scriptlet

variable {ω ν : Type} [Opcode ω]

/-! ## Where jumps lead -/

namespace Code

/-- Is there a boundary between instructions at an offset, or the beginning or the end of the code? -/
def Boundary (code : Code ω) (offset : Int) : Prop :=
  ∃ front back, code = front ++ back ∧ (size front : Int) = offset

/-- Do all jumps of some code that stands between two others lead to boundaries? -/
def JumpsInto (before code behind : Code ω) : Prop :=
  ∀ front i back, code = front ++ i :: back → (Opcode.layout i.op).isJump = true →
    Boundary (before ++ (code ++ behind)) (size before + size front + i.width + i.arg)

/-- Does no jump lead out of the code? -/
abbrev Closed (code : Code ω) : Prop :=
  JumpsInto [] code []

/-- Jumps out of two pieces of code may lead into each other. -/
theorem JumpsInto.append {before a b behind : Code ω} (ha : JumpsInto before a (b ++ behind))
    (hb : JumpsInto (before ++ a) b behind) : JumpsInto before (a ++ b) behind := by
  intro front i back hcode hjump
  -- The jump stands in `a` or in `b`.
  rcases List.append_eq_append_iff.mp hcode with ⟨c, rfl, hb'⟩ | ⟨c, rfl, hc⟩
  · have := hb c i back hb' hjump
    simpa [Nat.add_assoc, Int.add_assoc] using this
  · cases c with
    | nil =>
        have := hb [] i back (by simpa using hc.symm) hjump
        simpa [Int.add_assoc] using this
    | cons j c =>
        simp only [List.cons_append, List.cons.injEq] at hc
        obtain ⟨rfl, rfl⟩ := hc
        have := ha front i c rfl hjump
        simpa using this

/-- Closed code can stand anywhere. -/
theorem Closed.within {code : Code ω} (h : Closed code) (before behind : Code ω) :
    JumpsInto before code behind := by
  intro front i back hcode hjump
  obtain ⟨front', back', heq, hsize⟩ := h front i back hcode hjump
  have heq : code = front' ++ back' := by simpa using heq
  refine ⟨before ++ front', back' ++ behind, by simp [heq], ?_⟩
  simp only [size_nil, size_append] at hsize ⊢
  omega

theorem Closed.append {a b : Code ω} (ha : Closed a) (hb : Closed b) : Closed (a ++ b) :=
  JumpsInto.append (ha.within _ _) (hb.within _ _)

/-- Code without jumps is closed. -/
theorem Closed.of_straight {code : Code ω}
    (h : ∀ i ∈ code, (Opcode.layout i.op).isJump = false) : Closed code := by
  intro front i back hcode hjump
  have := h i (by simp [hcode])
  simp [this] at hjump

theorem JumpsInto.single {before behind : Code ω} {i : Instr ω}
    (h : Boundary (before ++ (i :: behind)) (size before + i.width + i.arg)) :
    JumpsInto before [i] behind := by
  intro front j back hcode hjump
  cases front with
  | nil =>
      cases hcode
      simpa using h
  | cons _ front => simp at hcode

/-- The jumps of a conditional lead to its alternative and to its end. -/
theorem closed_conditional {condition drop yes no : Code ω} {toElse toEnd : Instr ω}
    (hcondition : condition.Closed) (hdrop : drop.Closed) (hyes : yes.Closed) (hno : no.Closed)
    (htoElse : toElse.arg = size (drop ++ yes) + toEnd.width)
    (htoEnd : toEnd.arg = size (drop ++ no)) :
    Closed [condition, [toElse], drop, yes, [toEnd], drop, no].flatten := by
  simp only [List.flatten_cons, List.flatten_nil, List.append_nil]
  refine JumpsInto.append (hcondition.within _ _) (.append (.single ?_) (.append (hdrop.within _ _)
    (.append (hyes.within _ _) (.append (.single ?_) ((hdrop.append hno).within _ _)))))
  · refine ⟨condition ++ [toElse] ++ drop ++ yes ++ [toEnd], drop ++ no, by simp, ?_⟩
    simp only [size_append, size_cons, size_nil] at htoElse ⊢
    omega
  · refine ⟨condition ++ [toElse] ++ drop ++ yes ++ [toEnd] ++ drop ++ no, [], by simp, ?_⟩
    simp only [size_append, size_cons, size_nil] at htoEnd ⊢
    omega

/-- The jumps of a loop lead to its beginning and out of it. -/
theorem closed_loop {condition drop body : Code ω} {toEnd again : Instr ω}
    (hcondition : condition.Closed) (hdrop : drop.Closed) (hbody : body.Closed)
    (htoEnd : toEnd.arg = size (drop ++ body) + again.width)
    (hagain : again.arg = -(size condition + toEnd.width + toEnd.arg)) :
    Closed [condition, [toEnd], drop, body, [again], drop].flatten := by
  simp only [List.flatten_cons, List.flatten_nil, List.append_nil]
  refine JumpsInto.append (hcondition.within _ _) (.append (.single ?_) (.append (hdrop.within _ _)
    (.append (hbody.within _ _) (.append (.single ?_) (hdrop.within _ _)))))
  · refine ⟨condition ++ [toEnd] ++ drop ++ body ++ [again], drop, by simp, ?_⟩
    simp only [size_append, size_cons, size_nil] at htoEnd ⊢
    omega
  · refine ⟨[], condition ++ [toEnd] ++ drop ++ body ++ [again] ++ drop, by simp, ?_⟩
    simp only [size_append, size_cons, size_nil] at htoEnd ⊢
    omega

end Code

/-! ## What a piece of the walk adds -/

namespace Backend

variable (b : Backend ω ν) {Inv : Pool → ν → Prop}

/-- Is it no end of a program, and can it be read back? -/
structure Inner (pool : Pool) (i : Instr ω) : Prop where
  valid : i.Valid pool
  continues : i.op ≠ b.stop

/-- Code that can stand anywhere in a program was added, the pool grew to `larger`, and `vars` is what
is remembered now. -/
structure Adds (Inv : Pool → ν → Prop) (pool : Pool) (code : Code ω) (larger : Pool) (vars : ν) :
    Prop where
  inv : Inv larger vars
  pool_extends : pool.Extends larger
  inner : ∀ i ∈ code, b.Inner larger i
  closed : code.Closed

variable {b} {pool larger largest : Pool} {vars vars' : ν} {code code' : Code ω} {line : Nat}

/-- An instruction stays sound with more constants. -/
theorem Inner.mono {i : Instr ω} (h : b.Inner pool i) (hextends : pool.Extends larger) :
    b.Inner larger i :=
  ⟨h.valid.mono hextends.size_le, h.continues⟩

/-- Code without jumps adds to the program. -/
theorem Yields.adds {s t : GenState ν} (h : b.Yields Inv s code t) :
    b.Adds Inv s.pool code t.pool t.vars := by
  refine ⟨h.inv, h.pool_extends, ?_, .of_straight fun i hi => (h.straight i hi).no_jump⟩
  intro i hi
  exact ⟨(h.straight i hi).valid, (h.straight i hi).continues⟩

/-- Pieces that follow each other are one piece. -/
theorem Adds.append (h : b.Adds Inv pool code larger vars)
    (h' : b.Adds Inv larger code' largest vars') :
    b.Adds Inv pool (code ++ code') largest vars' := by
  refine ⟨h'.inv, h.pool_extends.trans h'.pool_extends, ?_, h.closed.append h'.closed⟩
  intro i hi
  rcases List.mem_append.mp hi with hi | hi
  · exact (h.inner i hi).mono h'.pool_extends
  · exact h'.inner i hi

/-- What was sound stays so with the constants added later. -/
theorem Adds.inner_of_extends (h : b.Adds Inv pool code larger vars)
    (hextends : larger.Extends largest) : ∀ i ∈ code, b.Inner largest i :=
  fun i hi => (h.inner i hi).mono hextends

/-- Instructions without operands can be read back, and they do not jump. -/
theorem straight_plain {ops : List ω} (hops : ∀ o ∈ ops, Opcode.layout o = .none ∧ o ≠ b.stop) :
    ∀ i ∈ Code.plain line ops, i.Straight b.stop pool := by
  intro i hi
  simp only [Code.plain, Code.onLine, List.map_map, List.mem_map, Function.comp] at hi
  rcases hi with ⟨o, ho, rfl⟩
  have hlayout := (hops o ho).1
  exact ⟨.of_fits (by rw [hlayout]; rfl) (by simp [hlayout]), (hops o ho).2, by rw [hlayout]; rfl⟩

/-- Instructions without operands are sound. -/
theorem inner_plain {ops : List ω} (hops : ∀ o ∈ ops, Opcode.layout o = .none ∧ o ≠ b.stop) :
    ∀ i ∈ Code.plain line ops, b.Inner pool i := by
  intro i hi
  have h : i.Straight b.stop pool := straight_plain hops i hi
  exact ⟨h.valid, h.continues⟩

/-- They jump nowhere. -/
theorem closed_plain {ops : List ω} (hops : ∀ o ∈ ops, Opcode.layout o = .none ∧ o ≠ b.stop) :
    (Code.plain line ops).Closed := by
  refine .of_straight ?_
  intro i hi
  have h : i.Straight b.stop #[] := straight_plain hops i hi
  exact h.no_jump

theorem adds_plain {ops : List ω} (hinv : Inv pool vars)
    (hops : ∀ o ∈ ops, Opcode.layout o = .none ∧ o ≠ b.stop) :
    b.Adds Inv pool (Code.plain line ops) pool vars :=
  ⟨hinv, .refl _, inner_plain hops, closed_plain hops⟩

theorem adds_nil (hinv : Inv pool vars) : b.Adds Inv pool [] pool vars :=
  ⟨hinv, .refl _, by simp, .of_straight (by simp)⟩

/-- A conditional jump never fails with an error of the chunk. -/
theorem shortCut_refuses (b : Backend ω ν) (op : LogicalOp) (displacement : Int) :
    (b.shortCut op displacement).Refuses := by
  cases op with
  | and => exact Gen.jumpBy_refuses _ _
  | or =>
      refine .bind (Gen.instrs_refuses _) fun _ => ?_
      exact .bind (Gen.jumpBy_refuses _ _) fun _ => .pure _

namespace Lawful

section

variable (hb : b.Lawful Inv)

include hb

theorem plain_pop : ∀ o ∈ [b.pop], Opcode.layout o = .none ∧ o ≠ b.stop := by
  intro o ho
  apply hb.plain
  simp only [List.mem_singleton] at ho
  simp [ho]

theorem plain_print : ∀ o ∈ [b.print], Opcode.layout o = .none ∧ o ≠ b.stop := by
  intro o ho
  apply hb.plain
  simp only [List.mem_singleton] at ho
  simp [ho]

theorem plain_keep : ∀ o ∈ b.keep, Opcode.layout o = .none ∧ o ≠ b.stop := by
  intro o ho
  apply hb.plain
  simp [ho]

theorem plain_drop : ∀ o ∈ b.drop, Opcode.layout o = .none ∧ o ≠ b.stop := by
  intro o ho
  apply hb.plain
  simp [ho]

/-- A jump whose operand holds its displacement is sound. -/
theorem inner_jump {op : ω} {displacement : Int}
    (hop : op ∈ [b.jump, b.jumpUnless, b.jumpIf.2, b.loop])
    (hfits : (Opcode.layout op).fits displacement = true) :
    ∀ i ∈ Code.onLine line [(op, displacement)], b.Inner pool i := by
  intro i hi
  rcases List.mem_singleton.mp hi with rfl
  have hjump := hb.jumps op hop
  refine ⟨.of_fits hfits ?_, hjump.2⟩
  intro hlayout
  rw [hlayout] at hjump
  cases hjump.1

/-- What leads up to the jump of a logical operator is at most one jump over that jump. -/
theorem shortCutLead_cases (op : LogicalOp) :
    b.shortCutLead op = [] ∨
      ∃ o, b.shortCutLead op = [(o, (Opcode.width (b.shortCutJump op) : Int))] ∧
        (Opcode.layout o).isJump = true ∧ o ≠ b.stop ∧
        (Opcode.layout o).fits (Opcode.width (b.shortCutJump op)) = true := by
  cases op with
  | and => exact .inl rfl
  | or => exact hb.lead

/-- A conditional jump is sound, with the instruction that may lead it in. -/
theorem inner_shortCut {op : LogicalOp} {displacement : Int}
    (hfits : (Opcode.layout (b.shortCutJump op)).fits displacement = true) :
    ∀ i ∈ Code.onLine line (b.shortCutLead op ++ [(b.shortCutJump op, displacement)]),
      b.Inner pool i := by
  have hjump : ∀ i ∈ Code.onLine line [(b.shortCutJump op, displacement)], b.Inner pool i := by
    refine hb.inner_jump ?_ hfits
    cases op <;> simp [shortCutJump]
  rcases hb.shortCutLead_cases op with hlead | ⟨o, hlead, hisJump, hstop, hleadFits⟩
  · rw [hlead]
    exact hjump
  · rw [hlead]
    intro i hi
    rcases List.mem_cons.mp hi with rfl | hi
    · refine ⟨.of_fits hleadFits ?_, hstop⟩
      intro hlayout
      rw [hlayout] at hisJump
      cases hisJump
    · exact hjump i hi

/-- The jump over the right operand of a logical operator leads to its end, and a jump in front of
that jump leads behind it. -/
theorem jumpsInto_shortCut (op : LogicalOp) (before skipped : Code ω) :
    Code.JumpsInto before
      (Code.onLine line (b.shortCutLead op ++ [(b.shortCutJump op, (Code.size skipped : Int))]))
      skipped := by
  let jump : Instr ω := { op := b.shortCutJump op, arg := Code.size skipped, line }
  have hjump (before : Code ω) : Code.JumpsInto before [jump] skipped := by
    refine .single ⟨before ++ jump :: skipped, [], by simp, ?_⟩
    simp only [Code.size_append, Code.size_cons, jump]
    omega
  -- a target without the jump leads it in with another one, over it
  rcases hb.shortCutLead_cases op with hlead | ⟨o, hlead, -⟩
  · rw [hlead]
    exact hjump before
  · rw [hlead]
    let lead : Instr ω := { op := o, arg := Opcode.width (b.shortCutJump op), line }
    show Code.JumpsInto before ([lead] ++ [jump]) skipped
    refine .append (.single ⟨before ++ [lead, jump], skipped, by simp, ?_⟩) (hjump _)
    simp only [Code.size_append, Code.size_cons, Code.size_nil, lead, jump, Instr.width]
    omega

/-- The code of an expression is sound, and its jumps stay within it. -/
theorem adds_of_emits {s t : GenState ν} {e : Expr} {kind : StaticKind} {code : Code ω}
    (h : b.Emits s e kind code t) (hs : Inv s.pool s.vars) :
    b.Adds Inv s.pool code t.pool t.vars := by
  -- on how the code was emitted; the constants of operands are there when those behind them are
  -- added
  induction h with
  | literal _ hcode => exact (hb.literal hcode hs).adds
  | group _ ih => exact ih hs
  | @unary _ _ _ op _ _ _ _ _ _ _ ih =>
      have hoperand := ih hs
      refine hoperand.append (adds_plain hoperand.inv ?_)
      intro o ho
      rcases List.mem_singleton.mp ho with rfl
      exact hb.unary op
  | @binary _ _ _ _ op _ _ _ _ _ _ _ _ _ _ _ ihLeft ihRight =>
      have hleft := ihLeft hs
      have hright := ihRight hleft.inv
      exact hleft.append (hright.append (adds_plain hright.inv (hb.binary op)))
  | ident _ hcode => exact (hb.fetch hcode hs).adds
  | assign _ _ hstore ih =>
      have hvalue := ih hs
      exact hvalue.append (hb.store hstore hvalue.inv).adds
  | @logical s t u _ op _ _ _ _ _ _ skipped _ _ _ hskipped hfits ihLeft ihRight =>
      have hleft := ihLeft hs
      have hright := ihRight hleft.inv
      -- the jump leads over the right operand, and over the instruction that drops the left one
      have hskipped : b.Adds Inv t.pool skipped u.pool u.vars := by
        rw [hskipped]
        exact (adds_plain hleft.inv hb.plain_pop).append hright
      refine ⟨hright.inv, hleft.pool_extends.trans hright.pool_extends, ?_, ?_⟩
      · simp only [List.flatten_cons, List.flatten_nil, List.append_nil, List.forall_mem_append]
        exact ⟨hleft.inner_of_extends hright.pool_extends, inner_plain hb.plain_keep,
          hb.inner_shortCut hfits, hskipped.inner⟩
      · simp only [List.flatten_cons, List.flatten_nil, List.append_nil]
        refine Code.JumpsInto.append (hleft.closed.within _ _)
          (.append ((closed_plain hb.plain_keep).within _ _)
            (.append ?_ (hskipped.closed.within _ _)))
        rw [List.append_nil]
        exact hb.jumpsInto_shortCut op _ skipped

end

mutual

/-- The code of a statement can stand anywhere in a program. -/
theorem adds_of_emitsStmt (hb : b.Lawful Inv) {s t : GenState ν} {st : Stmt} {code : Code ω}
    (h : b.EmitsStmt s st code t) (hs : Inv s.pool s.vars) :
    b.Adds Inv s.pool code t.pool t.vars := by
  cases h with
  | print hvalue _ =>
      have hvalue := hb.adds_of_emits hvalue hs
      exact hvalue.append (adds_plain hvalue.inv hb.plain_print)
  | expression hvalue _ =>
      have hvalue := hb.adds_of_emits hvalue hs
      exact hvalue.append (adds_plain hvalue.inv hb.plain_pop)
  | var hvalue _ hdeclare =>
      have hvalue := hb.adds_of_emits hvalue hs
      exact hvalue.append (hb.declare hdeclare hvalue.inv).adds
  | @varUnset _ _ line _ _ _ hdeclare =>
      have hunset : b.Yields Inv s (Code.onLine line [b.unset]) s := ⟨hs, .refl _, hb.unset _ _⟩
      exact hunset.adds.append (hb.declare hdeclare hs).adds
  | @block _ t _ _ _ hbody _ =>
      have hbody := hb.adds_of_emitsAll hbody (hb.enter hs)
      refine hbody.append (adds_plain (hb.leave hbody.inv) ?_)
      intro o ho
      rw [List.eq_of_mem_replicate ho]
      exact hb.plain_pop b.pop (List.mem_singleton_self _)
  | ifThen hcondition _ hyes hno hdrop hjump htoElse htoEnd =>
      have hcondition := hb.adds_of_emits hcondition hs
      have hyes := hb.adds_of_emitsStmt hyes hcondition.inv
      have hno := hb.adds_of_emitsElse hno hyes.inv
      have hextends := hyes.pool_extends.trans hno.pool_extends
      subst hdrop hjump
      refine ⟨hno.inv, hcondition.pool_extends.trans hextends, ?_, ?_⟩
      · simp only [List.flatten_cons, List.flatten_nil, List.append_nil, List.forall_mem_append]
        exact ⟨hcondition.inner_of_extends hextends, hb.inner_jump (by simp) htoElse,
          inner_plain hb.plain_drop, hyes.inner_of_extends hno.pool_extends,
          hb.inner_jump (by simp) htoEnd, inner_plain hb.plain_drop, hno.inner⟩
      · exact Code.closed_conditional hcondition.closed (closed_plain hb.plain_drop) hyes.closed
          hno.closed rfl rfl
  | whileDo hcondition _ hbody hdrop hinside hagain htoEnd =>
      have hcondition := hb.adds_of_emits hcondition hs
      have hbody := hb.adds_of_emitsStmt hbody hcondition.inv
      subst hdrop
      refine ⟨hbody.inv, hcondition.pool_extends.trans hbody.pool_extends, ?_, ?_⟩
      · simp only [List.flatten_cons, List.flatten_nil, List.append_nil, List.forall_mem_append]
        exact ⟨hcondition.inner_of_extends hbody.pool_extends, hb.inner_jump (by simp) htoEnd,
          inner_plain hb.plain_drop, hbody.inner, hb.inner_jump (by simp) hagain,
          inner_plain hb.plain_drop⟩
      · refine Code.closed_loop hcondition.closed (closed_plain hb.plain_drop) hbody.closed ?_ ?_
        · rw [hinside]
          rfl
        · simp [Instr.width]

theorem adds_of_emitsElse (hb : b.Lawful Inv) {s t : GenState ν} {line : Nat} {no : Option Stmt}
    {code : Code ω}
    (h : b.EmitsElse line s no code t) (hs : Inv s.pool s.vars) :
    b.Adds Inv s.pool code t.pool t.vars := by
  cases h with
  | none => exact adds_nil hs
  | some hno =>
      have hno := hb.adds_of_emitsStmt hno hs
      exact hno

theorem adds_of_emitsAll (hb : b.Lawful Inv) {s t : GenState ν} {sts : List Stmt} {code : Code ω}
    (h : b.EmitsAll s sts code t) (hs : Inv s.pool s.vars) :
    b.Adds Inv s.pool code t.pool t.vars := by
  cases h with
  | nil => exact adds_nil hs
  | cons hfirst hrest =>
      have hfirst := hb.adds_of_emitsStmt hfirst hs
      exact hfirst.append (hb.adds_of_emitsAll hrest hfirst.inv)

end

/-! ## Errors -/

/-- An expression never fails with an error of the chunk, as each of its steps is checked before. -/
theorem expr_refuses (hb : b.Lawful Inv) (e : Expr) : (b.expr e).Refuses := by
  induction e with
  | literal line value =>
      refine .bind (Gen.setLine_refuses line) fun _ => ?_
      exact .bind (hb.literal_refuses value) fun _ => .pure _
  | group line inner ih => exact ih
  | unary line op operand ih =>
      refine .bind ih ?_
      rintro ⟨kind, code⟩
      refine .bind (Gen.setLine_refuses line) fun _ => ?_
      split
      · exact Gen.throw_refuses rfl
      · exact .bind (Gen.instrs_refuses _) fun _ => .pure _
  | binary line op left right ihLeft ihRight =>
      refine .bind ihLeft ?_
      rintro ⟨leftKind, leftCode⟩
      refine .bind ihRight ?_
      rintro ⟨rightKind, rightCode⟩
      refine .bind (Gen.setLine_refuses line) fun _ => ?_
      split
      · exact Gen.throw_refuses rfl
      · exact .bind (Gen.instrs_refuses _) fun _ => .pure _
  | ident line name =>
      refine .bind (Gen.setLine_refuses line) fun _ => ?_
      exact .bind (hb.fetch_refuses name) fun _ => .pure _
  | assign line name value ih =>
      refine .bind ih fun _ => .bind (Gen.setLine_refuses line) fun _ => ?_
      exact .bind (hb.store_refuses name) fun _ => .pure _
  | logical line op left right ihLeft ihRight =>
      refine .bind ihLeft fun _ => .bind (Gen.setLine_refuses line) fun _ => ?_
      refine .bind (Gen.instrs_refuses _) fun _ => .bind (Gen.instrs_refuses _) fun _ => ?_
      refine .bind ihRight fun _ => .bind (Gen.setLine_refuses line) fun _ => ?_
      exact .bind (b.shortCut_refuses op _) fun _ => .pure _

mutual

theorem stmt_refuses (hb : b.Lawful Inv) (st : Stmt) : (b.stmt st).Refuses := by
  -- each step may refuse, so it is enough to name the steps
  match st with
  | .print line value | .expression line value =>
      refine .bind (hb.expr_refuses value) fun _ => .bind (Gen.setLine_refuses line) fun _ => ?_
      exact .bind (Gen.instrs_refuses _) fun _ => .pure _
  | .var line name (some initial) =>
      refine .bind (hb.expr_refuses initial) fun _ => .bind (Gen.setLine_refuses line) fun _ => ?_
      exact .bind (hb.declare_refuses name) fun _ => .pure _
  | .var line name none =>
      refine .bind (Gen.setLine_refuses line) fun _ => .bind (Gen.instrs_refuses _) fun _ => ?_
      exact .bind (hb.declare_refuses name) fun _ => .pure _
  | .block line body =>
      refine .bind Gen.vars_refuses fun _ => .bind (Gen.setVars_refuses _) fun _ => ?_
      refine .bind (hb.stmts_refuses body []) fun _ => .bind (Gen.setLine_refuses line) fun _ => ?_
      refine .bind Gen.vars_refuses fun _ => .bind (Gen.setVars_refuses _) fun _ => ?_
      exact .bind (Gen.instrs_refuses _) fun _ => .pure _
  | .ifThen line condition yes none =>
      refine .bind (hb.expr_refuses condition) fun _ => .bind (Gen.setLine_refuses line) fun _ => ?_
      refine .bind (Gen.instrs_refuses _) fun _ => .bind (hb.stmt_refuses yes) fun _ => ?_
      refine .bind (Gen.setLine_refuses line) fun _ => .bind (Gen.jumpBy_refuses _ _) fun _ => ?_
      exact .bind (.pure _) fun _ => .bind (Gen.jumpBy_refuses _ _) fun _ => .pure _
  | .ifThen line condition yes (some no) =>
      refine .bind (hb.expr_refuses condition) fun _ => .bind (Gen.setLine_refuses line) fun _ => ?_
      refine .bind (Gen.instrs_refuses _) fun _ => .bind (hb.stmt_refuses yes) fun _ => ?_
      refine .bind (Gen.setLine_refuses line) fun _ => .bind (Gen.jumpBy_refuses _ _) fun _ => ?_
      refine .bind (hb.stmt_refuses no) fun _ => .bind (Gen.setLine_refuses line) fun _ => ?_
      exact .bind (.pure _) fun _ => .bind (Gen.jumpBy_refuses _ _) fun _ => .pure _
  | .whileDo line condition body =>
      refine .bind (hb.expr_refuses condition) fun _ => .bind (Gen.setLine_refuses line) fun _ => ?_
      refine .bind (Gen.instrs_refuses _) fun _ => .bind (hb.stmt_refuses body) fun _ => ?_
      refine .bind (Gen.setLine_refuses line) fun _ => .bind (Gen.jumpBy_refuses _ _) fun _ => ?_
      exact .bind (Gen.jumpBy_refuses _ _) fun _ => .pure _

theorem stmts_refuses (hb : b.Lawful Inv) (sts : List Stmt) (done : List (Code ω)) :
    (b.stmts sts done).Refuses := by
  match sts with
  | [] => exact .pure _
  | first :: rest => exact .bind (hb.stmt_refuses first) fun _ => hb.stmts_refuses rest _

end

end Lawful

end Backend

/-! ## Whole chunks -/

/-- A chunk that reads back as a program. -/
structure Chunk.WellFormed (stop : ω) (c : Chunk) (records : List (Record ω)) : Prop where
  decodes : c.decode = .ok records
  tiles : Record.Tile 0 records c.size
  jumps : ∀ r ∈ records, (Opcode.layout r.op).isJump = true →
    ∃ r' ∈ records, r.target? = some r'.offset
  constants : ∀ r ∈ records, Opcode.layout r.op = .constant →
    0 ≤ r.instr.arg ∧ ∃ v, c.pool[r.instr.arg.toNat]? = some v ∧ r.constant = some v
  ends : ∃ front last, records = front ++ [last] ∧ last.op = stop ∧ ∀ r ∈ front, r.op ≠ stop

namespace Backend.Lawful

variable {b : Backend ω ν} {Inv : Pool → ν → Prop} {pool : Pool} {vars : ν} {code : Code ω}

/-- A jump leads to an instruction: to one of its piece, or to the end of the program behind it. -/
theorem target_of_closed {ending i : Instr ω} {front back : Code ω} (hclosed : code.Closed)
    (hending : (Opcode.layout ending.op).isJump = false)
    (hcode : code ++ [ending] = front ++ i :: back)
    (hjump : (Opcode.layout i.op).isJump = true) :
    ∃ r ∈ Code.records pool 0 (code ++ [ending]),
      (i.record pool front.size).target? = some r.offset := by
  -- The ending is no jump, so the jump stands in the code in front of it.
  rcases List.eq_nil_or_concat back with rfl | ⟨back, last, rfl⟩
  · have hi := (List.append_inj' hcode rfl).2
    rw [← List.singleton_inj.mp hi, hending] at hjump
    cases hjump
  · have hfront : code = front ++ i :: back := by
      rw [List.concat_eq_append, ← List.cons_append, ← List.append_assoc] at hcode
      exact (List.append_inj' hcode rfl).1
    rcases hclosed front i back hfront hjump with ⟨before, behind, hboundary, hsize⟩
    have hboundary : code = before ++ behind := by simpa using hboundary
    simp only [Code.size_nil] at hsize
    -- At the boundary stands the first instruction of `behind`, or the ending.
    rcases hbehind : behind ++ [ending] with _ | ⟨j, rest⟩
    · simp at hbehind
    · refine ⟨j.record pool before.size, ?_, ?_⟩
      · rw [Code.mem_records]
        refine ⟨before, j, rest, ?_, by simp⟩
        rw [hboundary, List.append_assoc, hbehind]
      · refine Instr.target?_record hjump ?_
        simp only [Instr.record]
        omega

/-- Sound code with a terminator behind it makes a well-formed chunk. -/
theorem wellFormed_ofCode (hb : b.Lawful Inv) (h : b.Adds Inv #[] code pool vars) (line : Nat) :
    (Chunk.ofCode pool (code ++ Code.plain line [b.stop])).WellFormed b.stop
      (Code.records pool 0 (code ++ Code.plain line [b.stop])) := by
  -- the terminator is the one instruction that may not stand within the code
  let ending : Instr ω := { op := b.stop, arg := 0, line }
  have hplain : Code.plain line [b.stop] = [ending] := rfl
  have hendingValid : ending.Valid pool := .of_fits (by rw [hb.stop]; rfl) (by simp [hb.stop])
  have hvalid : ∀ i ∈ code ++ [ending], i.Valid pool := by
    intro i hi
    rcases List.mem_append.mp hi with hi | hi
    · exact (h.inner i hi).valid
    · rcases List.mem_singleton.mp hi with rfl
      exact hendingValid
  rw [hplain]
  constructor
  · exact Chunk.decode_ofCode hb.legible hvalid
  · have := Code.tile_records pool 0 (code ++ [ending])
    simpa [Chunk.size, Chunk.ofCode] using this
  · intro r hr hjump
    rcases Code.mem_records.mp hr with ⟨front, i, back, hcode, rfl⟩
    rw [Nat.zero_add]
    exact target_of_closed h.closed (by rw [hb.stop]; rfl) hcode hjump
  · intro r hr hlayout
    rcases Code.mem_records.mp hr with ⟨front, i, back, hcode, rfl⟩
    have hi := hvalid i (by simp [hcode])
    have hlayout : Opcode.layout i.op = .constant := hlayout
    have hfits := hi.fits
    simp only [hlayout, Layout.fits, decide_eq_true_eq] at hfits
    -- the index was in range when the instruction was emitted, and the pool has only grown
    have hget := Array.getElem?_eq_getElem (hi.index_lt hlayout)
    exact ⟨hfits.1, _, hget, by simp [Instr.record, Instr.constant?, hlayout, hget]⟩
  · refine ⟨Code.records pool 0 code, ending.record pool (0 + code.size), ?_, rfl, ?_⟩
    · rw [Code.records_append]
      rfl
    · intro r hr
      rcases Code.mem_records.mp hr with ⟨front, i, back, hcode, rfl⟩
      exact (h.inner i (by simp [hcode])).continues

/-- What becomes of a step of generation that adds code, and that never fails with an error of the
chunk: its chunk is well formed. -/
theorem assemble_cases (hb : b.Lawful Inv) {step : Gen ν (Code ω)} (hrefuses : step.Refuses)
    (hadds : ∀ code t, step b.start = .ok (code, t) → b.Adds Inv #[] code t.pool t.vars) :
    (∃ c records, b.assemble step = .ok c ∧ c.WellFormed b.stop records) ∨
      ∃ e, b.assemble step = .error e ∧ e.isChunk = false := by
  rcases hstep : step b.start with e | ⟨code, t⟩
  · exact .inr ⟨e, b.assemble_eq_error hstep, hrefuses _ _ hstep⟩
  · have hcode := hadds code t hstep
    have hassemble := b.assemble_eq_ok hstep fun i hi => (hcode.inner i hi).valid.line_nonneg
    exact .inl ⟨_, _, hassemble, hb.wellFormed_ofCode hcode t.line⟩

/-- A generated chunk is the code of its program, with the end of the program behind it. -/
theorem program_eq_ok (hb : b.Lawful Inv) {p : Program} {c : Chunk} (h : b.program p = .ok c) :
    ∃ code t, b.EmitsAll b.start p code t ∧ b.Adds Inv #[] code t.pool t.vars ∧
      c = Chunk.ofCode t.pool (code ++ Code.plain t.line [b.stop]) := by
  rcases hstmts : b.stmts p [] b.start with e | ⟨code, t⟩
  · have hc : b.program p = .error e := b.assemble_eq_error hstmts
    rw [h] at hc
    cases hc
  · rcases b.emitsAll_of_stmts hstmts with ⟨_, rfl, hemits⟩
    have hadds := hb.adds_of_emitsAll hemits hb.fresh
    have hc : b.program p = .ok (Chunk.ofCode t.pool (code ++ Code.plain t.line [b.stop])) :=
      b.assemble_eq_ok hstmts fun i hi => (hadds.inner i hi).valid.line_nonneg
    rw [h] at hc
    exact ⟨code, t, hemits, hadds, Except.ok.inj hc⟩

/-- A program becomes a well-formed chunk, or is refused. -/
theorem program_cases (hb : b.Lawful Inv) (p : Program) :
    (∃ c records, b.program p = .ok c ∧ c.WellFormed b.stop records) ∨
      ∃ e, b.program p = .error e ∧ e.isChunk = false := by
  refine hb.assemble_cases (hb.stmts_refuses p []) ?_
  intro code t hstmts
  rcases b.emitsAll_of_stmts hstmts with ⟨rest, rfl, hemits⟩
  exact hb.adds_of_emitsAll hemits hb.fresh

/-- An expression becomes a well-formed chunk, or is refused. -/
theorem expression_cases (hb : b.Lawful Inv) (e : Expr) :
    (∃ c records, b.expression e = .ok c ∧ c.WellFormed b.stop records) ∨
      ∃ error, b.expression e = .error error ∧ error.isChunk = false := by
  refine hb.assemble_cases (.bind (hb.expr_refuses e) fun _ => .pure _) ?_
  intro code t hexpr
  rcases Gen.bind_eq_ok.mp hexpr with ⟨⟨kind, code'⟩, t', hexpr, hpure⟩
  cases Gen.pure_eq_ok.mp hpure
  exact hb.adds_of_emits (b.emits_of_expr hexpr) hb.fresh

end Backend.Lawful

/-- Is it a chunk that reads back as a program for a target? -/
def Target.WellFormed : Target → Chunk → Prop
  | .word, c => ∃ records, c.WellFormed WordOp.stopScript records
  | .pool, c => ∃ records, c.WellFormed PoolOp.return_ records

/-- Did generation for a target give a well-formed chunk, or fail for a reason that is not the
chunk's? -/
def Target.Accounts (target : Target) : Except GenError Chunk → Prop
  | .ok c => target.WellFormed c
  | .error e => ∀ cause line, e ≠ .chunk cause line

theorem Target.Accounts.of_cases {target : Target} {r : Except GenError Chunk}
    (h : (∃ c, r = .ok c ∧ target.WellFormed c) ∨ ∃ e, r = .error e ∧ e.isChunk = false) :
    target.Accounts r := by
  rcases h with ⟨c, rfl, hc⟩ | ⟨e, rfl, he⟩
  · exact hc
  · rintro cause line rfl
    cases he

/-- Every generated chunk is well formed, and generation never fails for a reason that is the
chunk's: for every target, every program and every expression. -/
theorem generated_wellFormed (target : Target) :
    (∀ p : Program, target.Accounts (target.generate p)) ∧
      ∀ e : Expr, target.Accounts (target.generateExpr e) := by
  cases target with
  | word =>
      constructor
      · intro p
        refine .of_cases ?_
        rcases WordOp.backend_lawful.program_cases p with ⟨c, records, hp, hc⟩ | herror
        · exact .inl ⟨c, hp, records, hc⟩
        · exact .inr herror
      · intro e
        refine .of_cases ?_
        rcases WordOp.backend_lawful.expression_cases e with ⟨c, records, he, hc⟩ | herror
        · exact .inl ⟨c, he, records, hc⟩
        · exact .inr herror
  | pool =>
      constructor
      · intro p
        refine .of_cases ?_
        rcases PoolOp.backend_lawful.program_cases p with ⟨c, records, hp, hc⟩ | herror
        · exact .inl ⟨c, hp, records, hc⟩
        · exact .inr herror
      · intro e
        refine .of_cases ?_
        rcases PoolOp.backend_lawful.expression_cases e with ⟨c, records, he, hc⟩ | herror
        · exact .inl ⟨c, he, records, hc⟩
        · exact .inr herror

end Scriptlet
