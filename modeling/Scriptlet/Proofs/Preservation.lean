import Scriptlet.Proofs.Descent
import Scriptlet.Proofs.Simulation

/-! # Code for the pool machine keeps the meaning of programs

The simulation of expressions, carried on to statements and programs. The evaluator opens and closes
scopes while a program runs; the generator has decided before which variable is in which slot. So the
first part is about the generator alone: a statement declares variables in the innermost block only, and
behind a statement that is no declaration the generator knows the variables that it knew in front of
it. That is what makes the two ways through a conditional meet, and a loop come back to its head, with
the same slots. It holds because the grammar allows declarations in a sequence of statements only.

A loop is followed by induction on the rounds that it is given. Each round takes the machine at least
one step, so where the evaluator runs out of rounds the machine has run for as many steps.

## Main statement

* `pool_code_keeps_meaning`: what the evaluator prints and how it ends is what the machine prints and
  how it ends.
-/

namespace Scriptlet

open Machine PoolMachine

/-! ## Scopes of the generator -/

namespace PoolVars

/-- Does no local variable belong to a deeper block than the innermost open one? -/
def Nested (v : PoolVars) : Prop :=
  ∀ l ∈ v.locals, l.depth ≤ v.depth

/-- Does `w` know more local variables of the innermost block of `v`, and is all else the same? -/
def Grows (v w : PoolVars) : Prop :=
  w.depth = v.depth ∧ ∃ here, w.locals = here ++ v.locals ∧ ∀ l ∈ here, l.depth = v.depth

variable {u v w : PoolVars}

theorem SameScope.refl (v : PoolVars) : v.SameScope v :=
  ⟨rfl, rfl⟩

theorem SameScope.symm (h : v.SameScope w) : w.SameScope v :=
  ⟨h.1.symm, h.2.symm⟩

theorem SameScope.trans (h : u.SameScope v) (h' : v.SameScope w) : u.SameScope w :=
  ⟨h'.1.trans h.1, h'.2.trans h.2⟩

theorem SameScope.grows (h : v.SameScope w) : v.Grows w :=
  ⟨h.2, [], h.1, by simp⟩

/-- Declarations in the same block add up. -/
theorem Grows.trans (h : u.Grows v) (h' : v.Grows w) : u.Grows w := by
  rcases h with ⟨hdepth, here, hlocals, hhere⟩
  rcases h' with ⟨hdepth', here', hlocals', hhere'⟩
  refine ⟨hdepth'.trans hdepth, here' ++ here, ?_, ?_⟩
  · rw [hlocals', hlocals, List.append_assoc]
  · intro l hl
    rcases List.mem_append.mp hl with hl | hl
    · exact (hhere' l hl).trans hdepth
    · exact hhere l hl

/-- A new variable belongs to the innermost block. -/
theorem Grows.nested (h : v.Grows w) (hv : v.Nested) : w.Nested := by
  rcases h with ⟨hdepth, here, hlocals, hhere⟩
  intro l hl
  rw [hlocals] at hl
  rw [hdepth]
  rcases List.mem_append.mp hl with hl | hl
  · exact Nat.le_of_eq (hhere l hl)
  · exact hv l hl

/-- What is declared in a block is forgotten behind it. -/
theorem Grows.leave (h : Grows { v with depth := v.depth + 1 } w) (hv : v.Nested) :
    v.SameScope w.leave.2 := by
  rcases h with ⟨hdepth, here, hlocals, hhere⟩
  have hpred : w.depth - 1 = v.depth := by rw [hdepth]; rfl
  have htaken : ∀ l ∈ here, w.depth - 1 < l.depth := by
    intro l hl
    rw [hpred, hhere l hl]
    exact Nat.lt_succ_self _
  have hkept : ∀ l ∈ v.locals, l.depth ≤ w.depth - 1 := by
    intro l hl
    rw [hpred]
    exact hv l hl
  rw [leave_eq hlocals htaken hkept]
  exact ⟨rfl, hpred⟩

end PoolVars

/-! ## Declarations and blocks -/

namespace InStep

variable {vars : PoolVars} {frame : Frame} {v : Value} {s : Session} {m : PoolMachine}

/-- The variables that the machine has slots for belong to open blocks. -/
theorem nested {waiting : List Value} (h : InStep vars frame waiting s m) : vars.Nested := by
  intro l hl
  rw [h.locals] at hl
  rcases List.mem_map.mp hl with ⟨p, hp, rfl⟩
  have hdepth := h.laidOut.depth_lt p hp
  rw [h.depth]
  exact Nat.le_of_lt_succ hdepth

/-- In a block, the value on top of the stack becomes a variable where it is. -/
theorem define_local (h : InStep vars frame [v] s m) (hdepth : 0 < vars.depth) (name : String) :
    InStep { vars with locals := { name, depth := vars.depth } :: vars.locals }
      (({ name, depth := vars.depth }, v) :: frame) []
      { s with scopes := s.scopes.define name v } m := by
  -- a local variable needs a block to be in
  have houter : s.scopes.outer ≠ [] := by
    rw [h.depth] at hdepth
    exact List.length_pos_iff.mp hdepth
  constructor
  · rw [h.depth]
    exact h.laidOut.define_local houter name v
  · rw [h.locals]
    rfl
  · exact h.depth
  · exact h.stack
  · exact h.output
  · exact h.unlimited
  · simp
  -- the new slot holds the value that was waiting, which is no double
  · intro p hp
    rcases List.mem_cons.mp hp with rfl | hp
    · exact h.exact_waiting v (List.mem_singleton_self v)
    · exact h.exact_frame p hp
  · exact h.exact_globals

/-- Outside of all blocks, a definition takes the value on top of the stack. -/
theorem define_global (h : InStep vars frame [v] s m) (hdepth : vars.depth = 0) (name : String) :
    InStep vars frame [] { s with scopes := s.scopes.define name v }
      { m.behind .defineGlobal frame.values with globals := m.globals.insert name v } := by
  -- outside of all blocks there is only the scope of the globals
  have houter : s.scopes.outer = [] := List.length_eq_zero_iff.mp (h.depth.symm.trans hdepth)
  have hlaid := h.laidOut
  rw [Scopes.all, houter] at hlaid
  constructor
  · rw [Scopes.all, Scopes.define, houter]
    exact hlaid.define_global name v
  · exact h.locals
  · exact h.depth
  · rfl
  · exact h.output
  · exact h.unlimited
  · simp
  · exact h.exact_frame
  · exact h.exact_insert (h.exact_waiting v (List.mem_singleton_self v)) name

/-- A new block begins with no variables of its own. -/
theorem enter (h : InStep vars frame [] s m) :
    InStep { vars with depth := vars.depth + 1 } frame []
      { s with scopes := s.scopes.enter } m :=
  { h with
    laidOut := h.laidOut.enter
    depth := congrArg (· + 1) h.depth }

/-- At the end of a block, its variables are on top of the stack. -/
theorem leave (h : InStep vars frame [] s m) (hdepth : 0 < vars.depth) :
    ∃ here below : Frame, m.stack = here.values ++ below.values ∧ vars.leave.1 = here.values.length ∧
      ∀ pc, InStep vars.leave.2 below [] { s with scopes := s.scopes.leave }
        { m with pc, stack := below.values } := by
  rcases s with ⟨⟨inner, outer⟩, sink⟩
  have hlength : vars.depth = outer.length := h.depth
  have houter : outer ≠ [] := List.length_pos_iff.mp (by omega)
  rcases h.laidOut.leave houter h.locals hlength with ⟨here, below, rfl, hlaid, hleave⟩
  rcases outer with _ | ⟨scope, outer⟩
  · exact absurd rfl houter
  rw [hleave]
  -- the slots on top are those of the block, and go with it
  refine ⟨here, below, ?_, by simp [Frame.locals], fun pc => ?_⟩
  · rw [h.stack]
    simp [Frame.values]
  · constructor
    · exact hlaid
    · rfl
    · rfl
    · rfl
    · exact h.output
    · exact h.unlimited
    · simp
    · intro p hp
      exact h.exact_frame p (List.mem_append_right _ hp)
    · exact h.exact_globals

end InStep

namespace PoolOp

open PoolVars

/-- A declaration adds at most one local variable, in the innermost block. -/
theorem declare_grows {s t : GenState PoolVars} {name : String} {line : Nat} {code : Code PoolOp}
    (h : backend.declare name (s.onLine line) = .ok (code, t)) (hs : InOrder s.pool s.vars) :
    s.vars.Grows t.vars := by
  rcases declare_ok h hs with ⟨-, -, -, rfl⟩ | ⟨-, index, hnamed, -⟩
  · refine ⟨rfl, [{ name, depth := s.vars.depth }], rfl, ?_⟩
    intro l hl
    rw [List.mem_singleton.mp hl]
  · exact SameScope.grows ⟨hnamed.locals_eq, hnamed.depth_eq⟩

mutual

/-- A statement declares local variables in the innermost block alone, and a statement that is no
declaration leaves none behind. -/
theorem emitsStmt_grows {s t : GenState PoolVars} {st : Stmt} {code : Code PoolOp}
    (h : backend.EmitsStmt s st code t) (hplaced : st.placed = true) (hs : InOrder s.pool s.vars)
    (hnested : s.vars.Nested) :
    s.vars.Grows t.vars ∧ (st.declares = false → s.vars.SameScope t.vars) := by
  have hsame : s.vars.SameScope t.vars →
      s.vars.Grows t.vars ∧ (st.declares = false → s.vars.SameScope t.vars) :=
    fun hscope => ⟨hscope.grows, fun _ => hscope⟩
  cases h with
  | print hvalue _ =>
      have hscope := emits_sameScope hvalue hs
      exact hsame hscope
  | expression hvalue _ =>
      have hscope := emits_sameScope hvalue hs
      exact hsame hscope
  | var hvalue _ hdeclare =>
      have hscope := emits_sameScope hvalue hs
      have ht := (backend_lawful.adds_of_emits hvalue hs).inv
      exact ⟨hscope.grows.trans (declare_grows hdeclare ht), fun h => nomatch h⟩
  | varUnset _ hdeclare => exact ⟨declare_grows hdeclare hs, fun h => nomatch h⟩
  | block hbody _ =>
      rw [Stmt.placed] at hplaced
      -- what the body declares is gone behind the block
      have hgrows := emitsAll_grows hbody hplaced (backend_lawful.enter hs)
        fun l hl => Nat.le_succ_of_le (hnested l hl)
      exact hsame (hgrows.leave hnested)
  | ifThen hcondition _ hyes hno _ _ _ _ =>
      -- a branch is no declaration, so it leaves the variables as they were
      rcases Stmt.placed_ifThen.mp hplaced with ⟨⟨hdeclares, hplacedYes⟩, hplacedNo⟩
      have hscope := emits_sameScope hcondition hs
      have ht := (backend_lawful.adds_of_emits hcondition hs).inv
      have hnestedYes := hscope.grows.nested hnested
      have hscopeYes := (emitsStmt_grows hyes hplacedYes ht hnestedYes).2 hdeclares
      have hu := (backend_lawful.adds_of_emitsStmt hyes ht).inv
      have hnestedNo := hscopeYes.grows.nested hnestedYes
      have hscopeNo := emitsElse_sameScope hno hplacedNo hu hnestedNo
      exact hsame ((hscope.trans hscopeYes).trans hscopeNo)
  | whileDo hcondition _ hbody _ _ _ _ =>
      rcases Stmt.placed_whileDo.mp hplaced with ⟨hdeclares, hplacedBody⟩
      have hscope := emits_sameScope hcondition hs
      have ht := (backend_lawful.adds_of_emits hcondition hs).inv
      have hnestedBody := hscope.grows.nested hnested
      have hscopeBody := (emitsStmt_grows hbody hplacedBody ht hnestedBody).2 hdeclares
      exact hsame (hscope.trans hscopeBody)

/-- An else branch leaves the local variables as they were. -/
theorem emitsElse_sameScope {s t : GenState PoolVars} {line : Nat} {no : Option Stmt}
    {code : Code PoolOp} (h : backend.EmitsElse line s no code t)
    (hplaced : ∀ st ∈ no, st.declares = false ∧ st.placed = true) (hs : InOrder s.pool s.vars)
    (hnested : s.vars.Nested) : s.vars.SameScope t.vars := by
  cases h with
  | none => exact .refl _
  | some hno =>
      rcases hplaced _ rfl with ⟨hdeclares, hplaced⟩
      exact (emitsStmt_grows hno hplaced hs hnested).2 hdeclares

/-- Statements add local variables of the innermost block only. -/
theorem emitsAll_grows {s t : GenState PoolVars} {sts : List Stmt} {code : Code PoolOp}
    (h : backend.EmitsAll s sts code t) (hplaced : Stmt.allPlaced sts = true)
    (hs : InOrder s.pool s.vars) (hnested : s.vars.Nested) : s.vars.Grows t.vars := by
  cases h with
  | nil => exact (SameScope.refl _).grows
  | cons hfirst hrest =>
      rw [Stmt.allPlaced, Bool.and_eq_true] at hplaced
      have hgrows := (emitsStmt_grows hfirst hplaced.1 hs hnested).1
      have ht := (backend_lawful.adds_of_emitsStmt hfirst hs).inv
      exact hgrows.trans (emitsAll_grows hrest hplaced.2 ht (hgrows.nested hnested))

end

/-! ## Statements -/

section Statements

variable {c : Chunk} {bound : Nat} {s t u : GenState PoolVars} {code : Code PoolOp}
  {vars vars' : PoolVars} {frame : Frame} {session : Session} {m : PoolMachine} {line : Nat}

/-- A conditional jump and the pop to which it goes. -/
theorem moves_branch {v : Value} {displacement : Int} {target : Nat}
    (hjump : c.Holds m.pc (Code.onLine line [(backend.jumpUnless, displacement)]))
    (htarget : ((m.pc + Opcode.width backend.jumpUnless : Nat) : Int) + displacement = target)
    (hpop : c.Holds (if v.truthy then m.pc + Opcode.width backend.jumpUnless else target)
      (Code.plain line backend.drop))
    (hin : InStep vars frame [v] session m) :
    ∃ m', Moves (step c) 2 m m' ∧
      m'.pc = (if v.truthy then m.pc + Opcode.width backend.jumpUnless else target)
        + Code.size (Code.plain line backend.drop) ∧
      InStep vars frame [] session m' := by
  have hstep := step_jumpIfFalse (next_of_holds hjump).1 hin.stack htarget
  -- the condition is still on the stack on both ways, and either way drops it
  by_cases hv : v.truthy
  · rw [if_pos hv] at hstep hpop ⊢
    have hin' : InStep vars frame [v] session (m.behind jumpIfFalse (v :: frame.values)) :=
      hin.restack rfl rfl rfl hin.exact_waiting
    rcases step_drop hpop hin' with ⟨m', hstep', hpc, hin''⟩
    exact ⟨m', .head hstep (.single hstep'), hpc, hin''⟩
  · rw [if_neg hv] at hstep hpop ⊢
    rcases step_drop hpop (hin.moved target) with ⟨m', hstep', hpc, hin''⟩
    exact ⟨m', .head hstep (.single hstep'), hpc, hin''⟩

/-- A conditional jump by the value on top of the stack. -/
theorem branches :
    Branches c backend line
      (fun b session m => ∃ v frame, v.truthy = b ∧ InStep vars frame [v] session m)
      (fun session m => ∃ frame, InStep vars frame [] session m) := by
  rintro b session m displacement target ⟨v, frame, rfl, hin⟩ hjump htarget hpop
  rcases moves_branch hjump htarget hpop hin with ⟨m', hmoves, hpc, hin'⟩
  exact ⟨1, m', hmoves, hpc, frame, hin'⟩

/-- A jump moves the machine and nothing else. -/
theorem jumps {op : PoolOp} (hop : op = PoolOp.jump ∨ op = PoolOp.loop)
    (hscope : vars.SameScope vars') :
    Jumps c op line (fun session m => ∃ frame, InStep vars frame [] session m)
      (fun session m => ∃ frame, InStep vars' frame [] session m) := by
  rintro session m displacement target ⟨frame, hin⟩ hholds htarget
  have hstep := step_jump (next_of_holds hholds).1 hop htarget
  exact ⟨_, hstep, rfl, frame, (hin.moved target).congr hscope⟩

/-- The machine has run the code of a condition, and its value is on the stack. -/
def Decided (vars : PoolVars) (code : Code PoolOp) (m : PoolMachine) (b : Bool) (s : Session)
    (m' : PoolMachine) : Prop :=
  ∃ v : Value, v.truthy = b ∧ Behind vars [v] code m s m'

/-- A condition that was decided is past, with its value on the stack. -/
theorem Decided.past {m' : PoolMachine} {b : Bool} (h : Decided vars code m b session m') :
    Past (fun session m => ∃ v frame, v.truthy = b ∧ InStep vars frame [v] session m) code m session
      m' := by
  rcases h with ⟨v, hv, hpc, frame, hin⟩
  exact ⟨hpc, v, frame, hv, hin⟩

/-- The machine follows the evaluation of a condition. -/
theorem follows_holds {e : Expr} {kind : StaticKind} (h : backend.Emits s e kind code t)
    (he : e.exact = true) (hs : InOrder s.pool s.vars) (hpool : t.pool.Extends c.pool)
    (hholds : c.Holds m.pc code) (hin : InStep s.vars frame [] session m) :
    Follows c bound m (Decided t.vars code m) (Exec.holds e session) := by
  refine (follows_eval h he hs hpool hholds hin).bind ?_
  intro v session' m' hbehind
  exact .here ⟨v, rfl, hbehind⟩

/-- Code for a conditional follows the conditional. -/
theorem follows_conditional {conditionCode yesCode noCode drop : Code PoolOp} {x : Exec Bool}
    {yes no : Exec Unit} {between behindNo : PoolVars}
    (hdrop : drop = Code.plain line backend.drop)
    (hholds : c.Holds m.pc
      [conditionCode,
        Code.onLine line
          [(backend.jumpUnless, Code.size (drop ++ yesCode) + (Opcode.width backend.jump : Int))],
        drop, yesCode, Code.onLine line [(backend.jump, (Code.size (drop ++ noCode) : Int))],
        drop, noCode].flatten)
    (hcondition : c.Holds m.pc conditionCode →
      Follows c bound m (Decided vars conditionCode m) (x session))
    (hyes : ∀ frame session m, c.Holds m.pc yesCode → InStep vars frame [] session m →
      Follows c bound m (fun _ => Behind between [] yesCode m) (yes session))
    (hno : ∀ frame session m, c.Holds m.pc noCode → InStep vars frame [] session m →
      Follows c bound m (fun _ => Behind behindNo [] noCode m) (no session))
    (hscope : between.SameScope behindNo) :
    Follows c bound m
      (fun _ => Behind behindNo []
        [conditionCode,
          Code.onLine line
            [(backend.jumpUnless, Code.size (drop ++ yesCode) + (Opcode.width backend.jump : Int))],
          drop, yesCode, Code.onLine line [(backend.jump, (Code.size (drop ++ noCode) : Int))],
          drop, noCode].flatten m)
      ((x >>= fun b => if b then yes else no) session) := by
  refine .conditional hdrop hholds branches (jumps (.inl rfl) hscope)
    (fun hholds => (hcondition hholds).mono fun _ _ _ h => h.past) ?_ ?_
  · rintro session m hholds ⟨frame, hin⟩
    exact hyes frame session m hholds hin
  · rintro session m hholds ⟨frame, hin⟩
    exact hno frame session m hholds hin

/-- Code for a loop follows the loop, for as many rounds as it is given. -/
theorem follows_loop {conditionCode bodyCode drop : Code PoolOp} {inside start : Nat}
    {x : Exec Bool} {body : Exec Unit} {within behindBody : PoolVars}
    (hdrop : drop = Code.plain line backend.drop)
    (hinside : inside = Code.size (drop ++ bodyCode) + Opcode.width backend.loop)
    (hholds : c.Holds start
      [conditionCode, Code.onLine line [(backend.jumpUnless, (inside : Int))], drop, bodyCode,
        Code.onLine line [(backend.loop,
          -((Code.size conditionCode + Opcode.width backend.jumpUnless + inside : Nat) : Int))],
        drop].flatten)
    (hcondition : ∀ frame session m, m.pc = start → InStep vars frame [] session m →
      Follows c bound m (Decided within conditionCode m) (x session))
    (hbody : ∀ frame session m, c.Holds m.pc bodyCode → InStep within frame [] session m →
      Follows c bound m (fun _ => Behind behindBody [] bodyCode m) (body session))
    (hscope : vars.SameScope within) (hscopeBody : within.SameScope behindBody)
    {rounds : Nat} (hrounds : rounds ≤ bound) (hpc : m.pc = start)
    (hin : InStep vars frame [] session m) :
    Follows c rounds m
      (fun _ => Behind behindBody []
        [conditionCode, Code.onLine line [(backend.jumpUnless, (inside : Int))], drop, bodyCode,
          Code.onLine line [(backend.loop,
            -((Code.size conditionCode + Opcode.width backend.jumpUnless + inside : Nat) : Int))],
          drop].flatten m)
      (Exec.repeatWhile x body rounds session) := by
  have hloop := Follows.loop hdrop hinside hholds branches
    (jumps (.inr rfl) (hscope.trans hscopeBody).symm) (fun session m hpc ⟨frame, hin⟩ =>
      (hcondition frame session m hpc hin).mono fun _ _ _ h => h.past)
    (fun session m hholds ⟨frame, hin⟩ => hbody frame session m hholds hin) hrounds hpc ⟨frame, hin⟩
  refine hloop.mono ?_
  rintro _ session' m' ⟨hpc', frame', hin'⟩
  exact ⟨hpc', frame', hin'.congr hscopeBody⟩

/-- The machine prints the value on the stack. -/
theorem follows_printLine {v : Value} (hholds : c.Holds m.pc (Code.plain line [backend.print]))
    (hin : InStep s.vars frame [v] session m) :
    Follows c bound m (fun _ => Behind s.vars [] (Code.plain line [backend.print]) m)
      (Exec.printLine line v session) := by
  rcases session with ⟨scopes, ⟨bytes, limit⟩⟩
  rcases (show limit = none from hin.unlimited) with rfl
  refine .after_step (step_print (next_of_holds hholds).1 hin.stack) (.here ⟨rfl, frame, ?_⟩)
  exact
    { hin with
      stack := rfl
      output := congrArg (· ++ (v.text ++ "\n").toUTF8) hin.output
      unlimited := rfl
      exact_waiting := by simp }

/-- The machine follows a declaration: the value stays as a slot, or becomes a global. -/
theorem follows_declare {v : Value} {name : String}
    (h : backend.declare name (s.onLine line) = .ok (code, t)) (hs : InOrder s.pool s.vars)
    (hpool : t.pool.Extends c.pool) (hholds : c.Holds m.pc code)
    (hin : InStep s.vars frame [v] session m) :
    Follows c bound m (fun _ => Behind t.vars [] code m) (Exec.define name v session) := by
  rcases session with ⟨scopes, sink⟩
  rcases declare_ok h hs with ⟨hdepth, -, rfl, rfl⟩ | ⟨hdepth, index, hnamed, rfl⟩
  · exact .here ⟨rfl, _, hin.define_local hdepth name⟩
  · have hconstant : c.pool[(index : Int).toNat]? = some (Value.string name) :=
      hpool.getElem? hnamed.constant
    have hstep := step_defineGlobal hconstant (next_of_holds hholds).1 hin.stack
    refine .after_step hstep (.here ⟨rfl, frame, ?_⟩)
    exact (hin.define_global hdepth name).congr ⟨hnamed.locals_eq, hnamed.depth_eq⟩

/-- Code for a block runs the body, and takes the variables of the block from the stack. -/
theorem follows_inScope {x : Exec Unit} {inner : PoolVars} (hdepth : inner.depth = vars.depth + 1)
    (hholds : c.Holds m.pc
      (code ++ Code.plain line (List.replicate inner.leave.1 backend.pop)))
    (hbody : c.Holds m.pc code →
      InStep { vars with depth := vars.depth + 1 } frame []
        { session with scopes := session.scopes.enter } m →
      Follows c bound m (fun _ => Behind inner [] code m)
        (x { session with scopes := session.scopes.enter }))
    (hin : InStep vars frame [] session m) :
    Follows c bound m
      (fun _ => Behind inner.leave.2 []
        (code ++ Code.plain line (List.replicate inner.leave.1 backend.pop)) m)
      (Exec.inScope x session) := by
  rcases Chunk.holds_append.mp hholds with ⟨hcode, hpops⟩
  refine .inScope (hbody hcode hin.enter) ?_
  rintro _ session' m₁ ⟨hpc, frame', hin₁⟩
  -- the code behind the body pops as many values as the block has variables
  rcases hin₁.leave (by omega) with ⟨here, below, hstack, hcount, hin₂⟩
  rw [hcount] at hpops ⊢
  rw [← hpc] at hpops
  refine ⟨_, _, moves_pops hstack hpops, ?_, below, hin₂ _⟩
  rw [Code.size_append, ← Nat.add_assoc, ← hpc]
  rfl

end Statements

/-- The parts of an `if` without doubles have none. -/
theorem exact_ifThen {line : Nat} {condition : Expr} {yes : Stmt} {no : Option Stmt}
    (h : ∀ e ∈ (Stmt.ifThen line condition yes no).expressions, e.exact = true) :
    condition.exact = true ∧ (∀ e ∈ yes.expressions, e.exact = true) ∧
      ∀ st ∈ no, ∀ e ∈ st.expressions, e.exact = true := by
  cases no with
  | none => simpa [Stmt.expressions] using h
  | some no => simpa [Stmt.expressions, or_imp, forall_and] using h

mutual

/-- The code of a statement follows the statement. -/
theorem follows_exec {c : Chunk} {bound : Nat} {s t : GenState PoolVars} {st : Stmt}
    {code : Code PoolOp} {frame : Frame} {session : Session} {m : PoolMachine}
    (h : backend.EmitsStmt s st code t) (hplaced : st.placed = true)
    (hexact : ∀ e ∈ st.expressions, e.exact = true) (hs : InOrder s.pool s.vars)
    (hpool : t.pool.Extends c.pool) (hholds : c.Holds m.pc code)
    (hin : InStep s.vars frame [] session m) :
    Follows c bound m (fun _ => Behind t.vars [] code m) (st.exec bound session) := by
  cases h with
  | @print _ _ _ value _ _ hvalue _ =>
      have he := hexact value (by simp [Stmt.expressions])
      rw [Stmt.exec]
      refine .seq hholds (fun hholds => follows_eval hvalue he hs hpool hholds hin) ?_
      intro v session' m' frame' hholds hin
      exact follows_printLine hholds hin
  | @expression _ _ _ value _ _ hvalue _ =>
      have he := hexact value (by simp [Stmt.expressions])
      rw [Stmt.exec]
      refine .seq hholds (fun hholds => follows_eval hvalue he hs hpool hholds hin) ?_
      intro v session' m' frame' hholds hin
      rcases step_drop hholds hin with ⟨m'', hstep, hpc, hin'⟩
      exact .after_step hstep (.here ⟨hpc, frame', hin'⟩)
  | @var _ _ _ _ _ initial _ _ _ hvalue _ hdeclare =>
      have he := hexact initial (by simp [Stmt.expressions])
      have ht := (backend_lawful.adds_of_emits hvalue hs).inv
      have hpool' := (backend_lawful.declare hdeclare ht).pool_extends.trans hpool
      rw [Stmt.exec]
      refine .seq hholds (fun hholds => follows_eval hvalue he hs hpool' hholds hin) ?_
      intro v session' m' frame' hholds hin
      exact follows_declare hdeclare ht hpool hholds hin
  | varUnset _ hdeclare =>
      rcases Chunk.holds_append.mp hholds with ⟨hunset, hdeclareCode⟩
      have hstep := step_literal (next_of_holds hunset).1 (show ofLiteral? .nil = some nil from rfl)
      -- a variable without an initial value is nil
      have hnil : Value.Exact .nil := by rintro ⟨⟩
      have hin' : InStep s.vars frame [.nil] session (m.behind nil (.nil :: m.stack)) :=
        hin.push hnil
      rw [Stmt.exec]
      refine .after_step hstep ((follows_declare hdeclare hs hpool hdeclareCode hin').mono ?_)
      intro _ session' m' h
      exact h.append rfl
  | @block _ t _ _ _ hbody _ =>
      rw [Stmt.placed] at hplaced
      have hentered := backend_lawful.enter hs
      have hgrows := emitsAll_grows hbody hplaced hentered
        fun l hl => Nat.le_succ_of_le (hin.nested l hl)
      have hpool' : t.pool.Extends c.pool := hpool
      have hdepth : t.vars.depth = s.vars.depth + 1 := hgrows.1
      rw [Stmt.exec]
      refine follows_inScope hdepth hholds (fun hholds hin => ?_) hin
      exact follows_execAll hbody hplaced hexact hentered hpool' hholds hin
  | @ifThen _ t₁ u _ _ _ _ _ _ _ _ _ _ _ hcondition _ hyes hno hdrop hjump _ _ =>
      rcases Stmt.placed_ifThen.mp hplaced with ⟨⟨hdeclares, hplacedYes⟩, hplacedNo⟩
      rcases exact_ifThen hexact with ⟨hexactCondition, hexactYes, hexactNo⟩
      have hscope := emits_sameScope hcondition hs
      have ht := (backend_lawful.adds_of_emits hcondition hs).inv
      have hnested := hscope.grows.nested hin.nested
      -- the second branch starts with the variables that the condition has left
      have hscopeYes : t₁.vars.SameScope u.vars :=
        (emitsStmt_grows hyes hplacedYes ht hnested).2 hdeclares
      have hu := (backend_lawful.adds_of_emitsStmt hyes ht).inv
      have hscopeNo := emitsElse_sameScope hno hplacedNo hu (hscopeYes.grows.nested hnested)
      have hpoolYes : u.pool.Extends c.pool :=
        (backend_lawful.adds_of_emitsElse hno hu).pool_extends.trans hpool
      have hpoolCondition : t₁.pool.Extends c.pool :=
        (backend_lawful.adds_of_emitsStmt hyes ht).pool_extends.trans hpoolYes
      subst hjump
      rw [exec_ifThen]
      refine follows_conditional hdrop hholds
        (fun hholds => follows_holds hcondition hexactCondition hs hpoolCondition hholds hin)
        (fun frame session m hholds hin => ?_) (fun frame session m hholds hin => ?_) hscopeNo
      · show Follows c bound m (fun _ => Behind u.vars [] _ m) _
        exact follows_exec hyes hplacedYes hexactYes ht hpoolYes hholds hin
      · exact follows_else hno hplacedNo hexactNo hu hpool hholds (hin.congr hscopeYes)
  | @whileDo _ t u _ condition body _ conditionCode _ _ _ hcondition _ hbody hdrop hinside _ _ =>
      rcases Stmt.placed_whileDo.mp hplaced with ⟨hdeclares, hplacedBody⟩
      simp only [Stmt.expressions, List.forall_mem_cons] at hexact
      have hscope := emits_sameScope hcondition hs
      have ht := (backend_lawful.adds_of_emits hcondition hs).inv
      have hnested := hscope.grows.nested hin.nested
      have hscopeBody : t.vars.SameScope u.vars :=
        (emitsStmt_grows hbody hplacedBody ht hnested).2 hdeclares
      have hpoolBody : u.pool.Extends c.pool := hpool
      have hpoolCondition : t.pool.Extends c.pool :=
        (backend_lawful.adds_of_emitsStmt hbody ht).pool_extends.trans hpoolBody
      -- each round runs the code of the condition again, from the same place
      have hconditionCode : c.Holds m.pc conditionCode := by
        rw [List.flatten_cons] at hholds
        exact (Chunk.holds_append.mp hholds).1
      rw [Stmt.exec]
      refine follows_loop hdrop hinside hholds (fun frame session m' hpc hin => ?_)
        (fun frame session m' hholds hin => ?_) hscope hscopeBody (Nat.le_refl bound) rfl hin
      · rw [← hpc] at hconditionCode
        exact follows_holds hcondition hexact.1 hs hpoolCondition hconditionCode hin
      · show Follows c bound m' (fun _ => Behind u.vars [] _ m') _
        exact follows_exec hbody hplacedBody hexact.2 ht hpoolBody hholds hin

/-- The machine follows an else branch, if there is one. -/
theorem follows_else {c : Chunk} {bound line : Nat} {s t : GenState PoolVars} {no : Option Stmt}
    {code : Code PoolOp} {frame : Frame} {session : Session} {m : PoolMachine}
    (h : backend.EmitsElse line s no code t)
    (hplaced : ∀ st ∈ no, st.declares = false ∧ st.placed = true)
    (hexact : ∀ st ∈ no, ∀ e ∈ st.expressions, e.exact = true) (hs : InOrder s.pool s.vars)
    (hpool : t.pool.Extends c.pool) (hholds : c.Holds m.pc code)
    (hin : InStep s.vars frame [] session m) :
    Follows c bound m (fun _ => Behind t.vars [] code m)
      (no.elim (pure ()) (Stmt.exec bound) session) := by
  cases h with
  | none => exact .here ⟨rfl, frame, hin⟩
  | @some _ _ t no _ hno =>
      have hpool' : t.pool.Extends c.pool := hpool
      show Follows c bound m (fun _ => Behind t.vars [] _ m) _
      exact follows_exec hno (hplaced no rfl).2 (hexact no rfl) hs hpool' hholds hin

/-- The machine follows statements one after the other. -/
theorem follows_execAll {c : Chunk} {bound : Nat} {s t : GenState PoolVars} {sts : List Stmt}
    {code : Code PoolOp} {frame : Frame} {session : Session} {m : PoolMachine}
    (h : backend.EmitsAll s sts code t) (hplaced : Stmt.allPlaced sts = true)
    (hexact : ∀ e ∈ Stmt.expressionsOfAll sts, e.exact = true) (hs : InOrder s.pool s.vars)
    (hpool : t.pool.Extends c.pool) (hholds : c.Holds m.pc code)
    (hin : InStep s.vars frame [] session m) :
    Follows c bound m (fun _ => Behind t.vars [] code m) (Stmt.execAll bound sts session) := by
  cases h with
  | nil => exact .here ⟨rfl, frame, hin⟩
  | cons hfirst hrest =>
      rw [Stmt.allPlaced, Bool.and_eq_true] at hplaced
      simp only [Stmt.expressionsOfAll, List.forall_mem_append] at hexact
      have ht := (backend_lawful.adds_of_emitsStmt hfirst hs).inv
      have hpool' := (backend_lawful.adds_of_emitsAll hrest ht).pool_extends.trans hpool
      rw [Stmt.execAll]
      refine .seq hholds
        (fun hholds => follows_exec hfirst hplaced.1 hexact.1 hs hpool' hholds hin) ?_
      intro _ session' m' frame' hholds hin
      exact follows_execAll hrest hplaced.2 hexact.2 ht hpool hholds hin

end

/-! ## Programs -/

/-- A chunk holds the code of its program, with a return behind it. -/
theorem holds_of_generate {p : Program} {c : Chunk} (h : Target.pool.generate p = .ok c) :
    ∃ code t, backend.EmitsAll backend.start p code t ∧ t.pool.Extends c.pool ∧
      c.Holds 0 (code ++ Code.plain t.line [return_]) :=
  backend_lawful.holds_of_program h

/-- Before the first instruction, the machine is in step with a session in which nothing has run. -/
theorem inStep_start :
    InStep backend.start.vars [] [] (Session.start .unlimited) PoolMachine.start where
  laidOut := .outermost fun _ => rfl
  locals := rfl
  depth := rfl
  stack := rfl
  output := rfl
  unlimited := rfl
  exact_waiting := by simp
  exact_frame := by simp
  exact_globals := by
    intro name v hv
    simp [PoolMachine.start] at hv

/-- Outside of all blocks, nothing is left on the stack. -/
theorem stack_eq_nil {vars : PoolVars} {frame : Frame} {session : Session} {m : PoolMachine}
    (hin : InStep vars frame [] session m) (hdepth : vars.depth = 0) : m.stack = [] := by
  have houter : session.scopes.outer = [] := List.length_eq_zero_iff.mp (hin.depth.symm.trans hdepth)
  have hlaid := hin.laidOut
  rw [Scopes.all, houter] at hlaid
  rw [hin.stack]
  cases hlaid with
  | outermost _ => rfl
  | block _ _ houter => cases houter

end PoolOp

/-- Code for the pool machine keeps the meaning of programs: of every program that is parsed without
errors, that has no double among its literals, and for which code is generated. Where the evaluator
comes to the end of the program, the machine comes to the end of the code with an empty stack and the
same output. Where the evaluator fails, the machine fails with the same output, at an instruction on
the line of the error. Where the evaluator comes to no end, neither does the machine. -/
theorem pool_code_keeps_meaning {ts : List Token} {p : Program} {c : Chunk}
    (hparse : parseProgram ts = { result := p, errors := [] })
    (hexact : ∀ e ∈ Stmt.expressionsOfAll p, e.exact = true)
    (hc : Target.pool.generate p = .ok c) :
    (∀ bound s, (Session.start .unlimited).run bound p = some (.ok (), s) →
      ∃ steps m, PoolMachine.exec c steps = (.stopped, m) ∧
        (∃ r : Record PoolOp, c.decodeAt m.pc = .ok r ∧ r.op = .return_) ∧
        m.stack = [] ∧ m.output = s.sink.bytes) ∧
    (∀ bound e s, (Session.start .unlimited).run bound p = some (.error e, s) →
      ∃ steps m, PoolMachine.exec c steps = (.failed, m) ∧
        m.output = s.sink.bytes ∧ c.lineAt m.pc = .ok e.line) ∧
    ((∀ bound, (Session.start .unlimited).run bound p = none) →
      ∀ steps, (PoolMachine.exec c steps).1 = .running) := by
  have hplaced := Grammar.allPlaced_of_declarations (program_of_parseProgram hparse)
  rcases PoolOp.holds_of_generate hc with ⟨code, t, hemits, hpool, hholds⟩
  rcases Chunk.holds_append.mp hholds with ⟨hcode, hend⟩
  have hstart := PoolOp.backend_lawful.fresh
  -- the run of the program with every bound is followed; a run that ends needs only one of them
  have hfollows : ∀ bound, Follows c bound PoolMachine.start
      (fun _ => Behind t.vars [] code PoolMachine.start)
      (Stmt.execAll bound p (Session.start .unlimited)) := by
    intro bound
    exact PoolOp.follows_execAll hemits hplaced hexact hstart hpool hcode PoolOp.inStep_start
  -- all blocks are closed at the end, so no slot is left on the stack
  have hdepth : t.vars.depth = 0 :=
    (PoolOp.emitsAll_grows hemits hplaced hstart PoolOp.inStep_start.nested).1
  refine ⟨?_, ?_, ?_⟩
  · intro bound s hrun
    have h := (hfollows bound).finish
    rw [show (Stmt.execAll bound p).finish (Session.start .unlimited) = some (.ok (), s) from hrun] at h
    rcases h with ⟨n, m, hmoves, hpc, frame, hin⟩
    have hend' : c.Holds m.pc (Code.plain t.line [PoolOp.return_]) := by
      rw [hpc]
      exact hend
    have hnext : PoolMachine.Next c m .return_ 0 t.line := (PoolMachine.next_of_holds hend').1
    exact ⟨n + 1, m, hmoves.run_stopped (PoolMachine.step_return hnext), ⟨_, hnext, rfl⟩,
      PoolOp.stack_eq_nil hin hdepth, hin.output⟩
  · intro bound e s hrun
    have h := (hfollows bound).finish
    rw [show (Stmt.execAll bound p).finish (Session.start .unlimited) = some (.error e, s) from hrun] at h
    rcases h with ⟨n, m, hmoves, hfailed, houtput, hline⟩
    exact ⟨n + 1, m, hmoves.run_failed hfailed, houtput, hline⟩
  · intro hrun steps
    have h := (hfollows steps).finish
    rw [show (Stmt.execAll steps p).finish (Session.start .unlimited) = none from hrun steps] at h
    rcases h with ⟨n, m, hmoves, hn⟩
    exact hmoves.run_running hn

/-- A loop over a local variable runs to its end, and prints what it should. With a division by zero
behind it, the program prints the same and fails on the line of the division. -/
theorem pool_code_keeps_meaning_loop :
    let loop : List Token :=
      [⟨.keyword .var_, "var", 1, none⟩, ⟨.identifier, "a", 1, none⟩,
        ⟨.symbol .equal, "=", 1, none⟩, ⟨.number, "1", 1, some (.int 1)⟩,
        ⟨.symbol .semicolon, ";", 1, none⟩, ⟨.symbol .leftBrace, "\x7b", 2, none⟩,
        ⟨.keyword .var_, "var", 2, none⟩, ⟨.identifier, "b", 2, none⟩,
        ⟨.symbol .equal, "=", 2, none⟩, ⟨.identifier, "a", 2, none⟩,
        ⟨.symbol .semicolon, ";", 2, none⟩, ⟨.keyword .while_, "while", 3, none⟩,
        ⟨.symbol .leftParen, "(", 3, none⟩, ⟨.identifier, "b", 3, none⟩,
        ⟨.symbol .lessEqual, "<=", 3, none⟩, ⟨.number, "2", 3, some (.int 2)⟩,
        ⟨.symbol .rightParen, ")", 3, none⟩, ⟨.symbol .leftBrace, "\x7b", 3, none⟩,
        ⟨.keyword .print_, "print", 4, none⟩, ⟨.identifier, "b", 4, none⟩,
        ⟨.symbol .semicolon, ";", 4, none⟩, ⟨.identifier, "b", 5, none⟩,
        ⟨.symbol .equal, "=", 5, none⟩, ⟨.identifier, "b", 5, none⟩,
        ⟨.symbol .plus, "+", 5, none⟩, ⟨.number, "1", 5, some (.int 1)⟩,
        ⟨.symbol .semicolon, ";", 5, none⟩, ⟨.symbol .rightBrace, "\x7d", 6, none⟩,
        ⟨.symbol .rightBrace, "\x7d", 7, none⟩]
    let division : List Token :=
      [⟨.keyword .print_, "print", 8, none⟩, ⟨.identifier, "a", 8, none⟩,
        ⟨.symbol .slash, "/", 8, none⟩, ⟨.number, "0", 8, some (.int 0)⟩,
        ⟨.symbol .semicolon, ";", 8, none⟩]
    (∃ p c steps m, parseProgram loop = { result := p, errors := [] } ∧
      Target.pool.generate p = .ok c ∧ PoolMachine.exec c steps = (.stopped, m) ∧
      m.stack = [] ∧ m.output = "1\n2\n".toUTF8) ∧
    ∃ p c steps m, parseProgram (loop ++ division) = { result := p, errors := [] } ∧
      Target.pool.generate p = .ok c ∧ PoolMachine.exec c steps = (.failed, m) ∧
      m.output = "1\n2\n".toUTF8 ∧ c.lineAt m.pc = .ok 8 := by
  intro loop division
  constructor
  · let p : Program := (parseProgram loop).result
    have hparse : parseProgram loop = { result := p, errors := [] } := rfl
    have hexact : ∀ e ∈ Stmt.expressionsOfAll p, e.exact = true := by decide +kernel
    have hok : (Target.pool.generate p).isOk = true := by decide +kernel
    have hrun : ((Session.start .unlimited).run 9 p).map (fun r => (r.1.isOk, r.2.sink.bytes))
        = some (true, "1\n2\n".toUTF8) := by decide +kernel
    rcases hc : Target.pool.generate p with e | c
    · rw [hc] at hok
      cases hok
    rcases Option.map_eq_some_iff.mp hrun with ⟨⟨_ | _, s⟩, hrun, hs⟩
    · cases hs
    rcases (pool_code_keeps_meaning hparse hexact hc).1 9 s hrun with
      ⟨steps, m, hexec, -, hstack, houtput⟩
    exact ⟨p, c, steps, m, hparse, hc, hexec, hstack, houtput.trans (congrArg Prod.snd hs)⟩
  · let p : Program := (parseProgram (loop ++ division)).result
    have hparse : parseProgram (loop ++ division) = { result := p, errors := [] } := rfl
    have hexact : ∀ e ∈ Stmt.expressionsOfAll p, e.exact = true := by decide +kernel
    have hok : (Target.pool.generate p).isOk = true := by decide +kernel
    have hrun : ((Session.start .unlimited).run 9 p).map
          (fun r => (match r.1 with | .ok _ => none | .error e => some e.line, r.2.sink.bytes))
        = some (some 8, "1\n2\n".toUTF8) := by decide +kernel
    rcases hc : Target.pool.generate p with e | c
    · rw [hc] at hok
      cases hok
    rcases Option.map_eq_some_iff.mp hrun with ⟨⟨e | _, s⟩, hrun, hs⟩
    · rcases (pool_code_keeps_meaning hparse hexact hc).2.1 9 e s hrun with
        ⟨steps, m, hexec, houtput, hline⟩
      have he : e.line = 8 := Option.some.inj (congrArg Prod.fst hs)
      rw [he] at hline
      exact ⟨p, c, steps, m, hparse, hc, hexec, houtput.trans (congrArg Prod.snd hs), hline⟩
    · cases hs

end Scriptlet
