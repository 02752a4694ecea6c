import Scriptlet.Proofs.Following
import Scriptlet.Proofs.Frames
import Scriptlet.Proofs.Operations
import Scriptlet.Proofs.WellFormed

/-! # The pool machine follows the evaluator

`InStep` is what the two have in common between two pieces of code. It names the slots by a frame, and
keeps apart from them the values that an expression has left to be used. It also says that no value is
a double: among doubles `not` behind a comparison is not the opposite comparison.

The code of an expression adds one value to those that wait, or fails where the evaluation fails.
-/

namespace Scriptlet

open Machine PoolMachine

variable {α β : Type}

/-! ## Being in step -/

/-- The machine is in step with a session. Its stack holds the values of the local variables and, on
top of them, values that are waiting to be used; it has printed what the session has printed; and none
of its values is a double. -/
structure InStep (vars : PoolVars) (frame : Frame) (waiting : List Value) (s : Session)
    (m : PoolMachine) : Prop where
  laidOut : LaidOut s.scopes.all frame m.globals
  locals : vars.locals = frame.locals
  depth : vars.depth = s.scopes.outer.length
  stack : m.stack = waiting ++ frame.values
  output : m.output = s.sink.bytes
  unlimited : s.sink.limit = none
  exact_waiting : ∀ v ∈ waiting, v.Exact
  exact_frame : ∀ p ∈ frame, p.2.Exact
  exact_globals : ∀ (name : String) (v : Value), m.globals[name]? = some v → v.Exact

/-- Do two states of the generator know the same local variables in the same block? -/
def PoolVars.SameScope (v w : PoolVars) : Prop :=
  w.locals = v.locals ∧ w.depth = v.depth

/-- After some code, from the state `m`, the machine is in step with a session. -/
def Behind (vars : PoolVars) (waiting : List Value) (code : Code PoolOp) (m : PoolMachine)
    (s : Session) (m' : PoolMachine) : Prop :=
  m'.pc = m.pc + code.size ∧ ∃ frame, InStep vars frame waiting s m'

/-- The machine is behind two pieces of code if it is behind the second one, from behind the first
one. -/
theorem Behind.append {vars : PoolVars} {waiting : List Value} {front back : Code PoolOp}
    {m m' m'' : PoolMachine} {s : Session} (hpc : m'.pc = m.pc + front.size)
    (h : Behind vars waiting back m' s m'') : Behind vars waiting (front ++ back) m s m'' := by
  have hpast : Past (fun s m => ∃ frame, InStep vars frame waiting s m) back m' s m'' := h
  exact hpast.append hpc

/-- Code in sequence follows steps in sequence. -/
theorem Follows.seq {c : Chunk} {bound : Nat} {m : PoolMachine} {s : Session} {vars vars' : PoolVars}
    {front back : Code PoolOp} {x : Exec α} {f : α → Exec β} {waiting : α → List Value}
    {waiting' : β → List Value} (hholds : c.Holds m.pc (front ++ back))
    (hx : c.Holds m.pc front → Follows c bound m (fun a => Behind vars (waiting a) front m) (x s))
    (hf : ∀ a s' m' frame, c.Holds m'.pc back → InStep vars frame (waiting a) s' m' →
      Follows c bound m' (fun b => Behind vars' (waiting' b) back m') (f a s')) :
    Follows c bound m (fun b => Behind vars' (waiting' b) (front ++ back) m) ((x >>= f) s) := by
  refine .sequence hholds hx ?_
  rintro a s' m' hback ⟨frame, hin⟩
  exact hf a s' m' frame hback hin

namespace InStep

variable {vars vars' : PoolVars} {frame : Frame} {waiting waiting' : List Value} {s : Session}
  {m m' : PoolMachine}

/-- Only the local variables of generation matter. -/
theorem congr (h : InStep vars frame waiting s m) (hvars : vars.SameScope vars') :
    InStep vars' frame waiting s m :=
  { h with
    locals := hvars.1.trans h.locals
    depth := hvars.2.trans h.depth }

/-- Other values wait on the stack; nothing else is different. -/
theorem restack (h : InStep vars frame waiting s m) (hstack : m'.stack = waiting' ++ frame.values)
    (hglobals : m'.globals = m.globals) (houtput : m'.output = m.output)
    (hexact : ∀ v ∈ waiting', v.Exact) : InStep vars frame waiting' s m' where
  laidOut := by rw [hglobals]; exact h.laidOut
  locals := h.locals
  depth := h.depth
  stack := hstack
  output := houtput.trans h.output
  unlimited := h.unlimited
  exact_waiting := hexact
  exact_frame := h.exact_frame
  exact_globals := by rw [hglobals]; exact h.exact_globals

/-- The place in the code does not matter. -/
theorem moved (h : InStep vars frame waiting s m) (pc : Nat) :
    InStep vars frame waiting s { m with pc } :=
  h.restack h.stack rfl rfl h.exact_waiting

/-- A value is pushed by an instruction. -/
theorem push {v : Value} {op : PoolOp} (h : InStep vars frame waiting s m) (hv : v.Exact) :
    InStep vars frame (v :: waiting) s (m.behind op (v :: m.stack)) := by
  refine h.restack ?_ rfl rfl ?_
  · show v :: m.stack = v :: waiting ++ frame.values
    rw [h.stack, List.cons_append]
  · intro w hw
    rcases List.mem_cons.mp hw with rfl | hw
    · exact hv
    · exact h.exact_waiting w hw

/-- The value of a name, as the session has it. -/
theorem find? (h : InStep vars frame waiting s m) (name : String) :
    s.scopes.find? name = (frame.find? name).or m.globals[name]? :=
  h.laidOut.findSome? name

/-- An assignment in the session, by a name that has a slot. -/
theorem assign_local {name : String} {slot : Nat} {v : Value}
    (h : InStep vars frame (v :: waiting) s m)
    (hslot : PoolVars.slotOf? name vars.locals = some slot) :
    ∃ scopes, s.scopes.assign? name v = some scopes ∧
      ∃ stack, setSlot? slot v m.stack = some stack ∧
        InStep vars (frame.assign name v) (v :: waiting) { s with scopes }
          (m.behind .setLocal stack) := by
  rw [h.locals] at hslot
  rcases Frame.slot?_values hslot with ⟨old, hfind, -⟩
  have hlt : slot < frame.values.length := by
    rw [Frame.length_values]
    exact PoolVars.slotOf?_lt hslot
  -- the scope that binds the name is the one that the slot belongs to
  rcases h.laidOut.rebind_local (by rw [hfind]; rfl) with ⟨rebound, hrebound, hlaid⟩
  rcases Scopes.assign?_eq_some hrebound with ⟨scopes, hassign, hall⟩
  refine ⟨scopes, hassign, v :: waiting ++ (frame.assign name v).values, ?_, ?_⟩
  · rw [h.stack, Frame.setSlot?_append _ hlt, Frame.setSlot?_values hslot]
    rfl
  · have hexact : ∀ p ∈ frame.assign name v, p.2.Exact := by
      intro p hp
      rcases Frame.mem_assign hp with hp | hp
      · rw [hp]
        exact h.exact_waiting v List.mem_cons_self
      · exact h.exact_frame p hp
    exact
      { laidOut := by rw [hall]; exact hlaid
        locals := by rw [Frame.locals_assign]; exact h.locals
        depth := h.depth.trans (Scopes.length_outer_assign? hassign).symm
        stack := rfl
        output := h.output
        unlimited := h.unlimited
        exact_waiting := h.exact_waiting
        exact_frame := hexact
        exact_globals := h.exact_globals }

/-- No global becomes a double by an assignment of another value. -/
theorem exact_insert (h : InStep vars frame waiting s m) {v : Value} (hv : v.Exact)
    (name : String) : ∀ (other : String) (w : Value),
      (m.globals.insert name v)[other]? = some w → w.Exact := by
  intro other w hw
  rw [Scope.getElem?_insert] at hw
  split at hw
  · cases hw
    exact hv
  · exact h.exact_globals other w hw

/-- An assignment in the session, by a name that has no slot. -/
theorem assign_global {name : String} {v : Value} (h : InStep vars frame (v :: waiting) s m)
    (hslot : PoolVars.slotOf? name vars.locals = none) (hglobal : m.globals[name]?.isSome) :
    ∃ scopes, s.scopes.assign? name v = some scopes ∧
      InStep vars frame (v :: waiting) { s with scopes }
        { m.behind .setGlobal m.stack with globals := m.globals.insert name v } := by
  rw [h.locals] at hslot
  rcases h.laidOut.rebind_global (Frame.find?_eq_none hslot) hglobal with
    ⟨rebound, hrebound, hlaid⟩
  rcases Scopes.assign?_eq_some hrebound with ⟨scopes, hassign, hall⟩
  refine ⟨scopes, hassign, ?_⟩
  exact
    { laidOut := by rw [hall]; exact hlaid
      locals := h.locals
      depth := h.depth.trans (Scopes.length_outer_assign? hassign).symm
      stack := h.stack
      output := h.output
      unlimited := h.unlimited
      exact_waiting := h.exact_waiting
      exact_frame := h.exact_frame
      exact_globals := h.exact_insert (h.exact_waiting v List.mem_cons_self) name }

/-- There is nothing to assign to. -/
theorem assign_none {name : String} {v : Value} (h : InStep vars frame waiting s m)
    (hslot : PoolVars.slotOf? name vars.locals = none) (hglobal : m.globals[name]? = none) :
    s.scopes.assign? name v = none := by
  rw [h.locals] at hslot
  exact Scopes.assign?_eq_none (h.laidOut.rebind_none (Frame.find?_eq_none hslot) hglobal)

end InStep

namespace PoolOp

open PoolVars

/-- Expressions declare nothing. -/
theorem emits_sameScope {s t : GenState PoolVars} {e : Expr} {kind : StaticKind} {code : Code PoolOp}
    (h : backend.Emits s e kind code t) (hs : InOrder s.pool s.vars) :
    s.vars.SameScope t.vars := by
  -- on how the code was emitted: expressions declare nothing, but may name new globals
  induction h with
  | literal _ hcode =>
      rcases literal_ok hcode with ⟨op, -, -, rfl⟩ | ⟨-, -, -, rfl⟩ <;> exact ⟨rfl, rfl⟩
  | group _ ih => exact ih hs
  | unary _ _ _ ih => exact ih hs
  | binary hleft _ _ _ ihLeft ihRight =>
      have hleftScope := ihLeft hs
      have hrightScope := ihRight (backend_lawful.adds_of_emits hleft hs).inv
      exact ⟨hrightScope.1.trans hleftScope.1, hrightScope.2.trans hleftScope.2⟩
  | ident _ hcode =>
      rcases access_ok hcode hs with ⟨slot, -, -, rfl⟩ | ⟨-, index, hnamed, -⟩
      · exact ⟨rfl, rfl⟩
      · exact ⟨hnamed.locals_eq, hnamed.depth_eq⟩
  | assign hvalue _ hstore ih =>
      have hscope := ih hs
      have ht := (backend_lawful.adds_of_emits hvalue hs).inv
      rcases access_ok hstore ht with ⟨slot, -, -, rfl⟩ | ⟨-, index, hnamed, -⟩
      · exact hscope
      · exact ⟨hnamed.locals_eq.trans hscope.1, hnamed.depth_eq.trans hscope.2⟩
  | logical hleft _ _ _ _ ihLeft ihRight =>
      have hleftScope := ihLeft hs
      have hrightScope := ihRight (backend_lawful.adds_of_emits hleft hs).inv
      exact ⟨hrightScope.1.trans hleftScope.1, hrightScope.2.trans hleftScope.2⟩

/-! ## Expressions -/

section Expressions

variable {c : Chunk} {bound : Nat} {s t : GenState PoolVars} {code : Code PoolOp}
  {frame : Frame} {waiting : List Value} {session : Session} {m : PoolMachine}

/-- The machine pushes what a literal evaluates to. -/
theorem follows_literal {value : Value} {line : Nat}
    (h : backend.literal value (s.onLine line) = .ok (code, t)) (hvalue : value.Exact)
    (hpool : t.pool.Extends c.pool) (hholds : c.Holds m.pc code)
    (hin : InStep s.vars frame waiting session m) :
    Follows c bound m (fun v => Behind t.vars (v :: waiting) code m) (.ok value session) := by
  rcases literal_ok h with ⟨op, hop, rfl, rfl⟩ | ⟨-, -, rfl, rfl⟩
  · have hnext := (next_of_holds hholds).1
    exact .after_step (step_literal hnext hop) (.here ⟨by simp [Code.plain], frame, hin.push hvalue⟩)
  · have hnext := (next_of_holds hholds).1
    have hconstant : c.pool[s.pool.size]? = some value :=
      hpool.getElem? (by simp)
    exact .after_step (step_constant hnext hconstant) (.here ⟨by simp, frame, hin.push hvalue⟩)

/-- The machine reads a variable from its slot or by its name. -/
theorem follows_fetch {name : String} {line : Nat}
    (h : backend.fetch name (s.onLine line) = .ok (code, t)) (hs : InOrder s.pool s.vars)
    (hpool : t.pool.Extends c.pool) (hholds : c.Holds m.pc code)
    (hin : InStep s.vars frame waiting session m) :
    Follows c bound m (fun v => Behind t.vars (v :: waiting) code m)
      (Exec.ofEval (Eval.fetch name line) session) := by
  have hfind := hin.find? name
  rcases session with ⟨scopes, sink⟩
  simp only [Exec.ofEval, Eval.fetch]
  rcases access_ok h hs with ⟨slot, hslot, rfl, rfl⟩ | ⟨hslot, index, hnamed, rfl⟩
  · -- The variable is a local: its slot holds its value.
    have hnext := (next_of_holds hholds).1
    have hslot : slotOf? name frame.locals = some slot := by rw [← hin.locals]; exact hslot
    rcases Frame.slot?_values hslot with ⟨v, hv, hget⟩
    rcases Frame.mem_of_find? hv with ⟨l, hl⟩
    have hlt : slot < frame.values.length := by
      rw [Frame.length_values]
      exact slotOf?_lt hslot
    have hget : slot? (slot : Int).toNat m.stack = some v := by
      rw [hin.stack, Int.toNat_natCast, Frame.slot?_append _ hlt, hget]
    rw [hv, Option.some_or] at hfind
    simp only [hfind]
    refine .after_step (step_getLocal hnext hget) (.here ⟨by simp, frame, ?_⟩)
    exact hin.push (hin.exact_frame (l, v) hl)
  · -- The variable is a global, or it is bound nowhere and both sides fail.
    have hnext := (next_of_holds hholds).1
    have hslot : slotOf? name frame.locals = none := by rw [← hin.locals]; exact hslot
    have hconstant : c.pool[(index : Int).toNat]? = some (Value.string name) :=
      hpool.getElem? hnamed.constant
    have hstep := step_getGlobal hconstant hnext
    rw [Frame.find?_eq_none hslot, Option.none_or] at hfind
    cases hglobal : m.globals[name]? with
    | none =>
        rw [hglobal] at hfind hstep
        simp only [hfind]
        exact .fail hnext hstep hin.output rfl
    | some v =>
        rw [hglobal] at hfind hstep
        simp only [hfind]
        refine .after_step hstep (.here ⟨by simp, frame, ?_⟩)
        exact (hin.push (hin.exact_globals name v hglobal)).congr
          ⟨hnamed.locals_eq, hnamed.depth_eq⟩

/-- The machine assigns to a variable in its slot or by its name. -/
theorem follows_store {name : String} {line : Nat} {v : Value}
    (h : backend.store name (s.onLine line) = .ok (code, t)) (hs : InOrder s.pool s.vars)
    (hpool : t.pool.Extends c.pool) (hholds : c.Holds m.pc code)
    (hin : InStep s.vars frame (v :: waiting) session m) :
    Follows c bound m (fun _ => Behind t.vars (v :: waiting) code m)
      (Exec.ofEval (Eval.store name line v) session) := by
  rcases session with ⟨scopes, sink⟩
  simp only [Exec.ofEval, Eval.store]
  rcases access_ok h hs with ⟨slot, hslot, rfl, rfl⟩ | ⟨hslot, index, hnamed, rfl⟩
  -- The variable is a local: its slot takes the value.
  · have hnext := (next_of_holds hholds).1
    rcases hin.assign_local hslot with ⟨scopes', hassign, stack, hset, hin'⟩
    simp only [hassign]
    exact .after_step (step_setLocal hnext hin.stack hset) (.here ⟨by simp, _, hin'⟩)
  · have hnext := (next_of_holds hholds).1
    have hconstant : c.pool[(index : Int).toNat]? = some (Value.string name) :=
      hpool.getElem? hnamed.constant
    have hstep := step_setGlobal hconstant hnext hin.stack
    rw [Scope.contains_eq] at hstep
    by_cases hglobal : m.globals[name]?.isSome
    · rcases hin.assign_global hslot hglobal with ⟨scopes', hassign, hin'⟩
      rw [if_pos hglobal] at hstep
      simp only [hassign]
      refine .after_step hstep (.here ⟨by simp, frame, ?_⟩)
      rw [hin.stack] at hin'
      exact hin'.congr ⟨hnamed.locals_eq, hnamed.depth_eq⟩
    · -- The name is bound nowhere, and both sides fail.
      have hnone : scopes.assign? name v = none := hin.assign_none hslot (by simpa using hglobal)
      rw [if_neg hglobal] at hstep
      simp only [hnone]
      exact .fail hnext hstep hin.output rfl

/-- An operation on values, by an instruction that fails where the operation fails. -/
theorem follows_operation {r : Except RuntimeError Value} {op : PoolOp} {arg : Int} {line : Nat}
    (operands : List Value) (hnext : Next c m op arg line)
    (hstep : step c m = match r with
      | .ok v => .next (m.behind op (v :: (waiting ++ frame.values)))
      | .error _ => .failed)
    (hline : ∀ e, r = .error e → e.line = line) (hexact : ∀ v, r = .ok v → v.Exact)
    (hin : InStep s.vars frame (operands ++ waiting) session m) :
    Follows c bound m (fun v => Behind s.vars (v :: waiting) (Code.plain line [op]) m)
      (Exec.ofEval (Eval.ofExcept r) session) := by
  rcases session with ⟨scopes, sink⟩
  cases r with
  | error e => exact .fail hnext hstep hin.output (hline e rfl)
  | ok v =>
      refine .after_step hstep (.here ⟨by simp [Code.plain], frame, ?_⟩)
      refine hin.restack rfl rfl rfl ?_
      intro w hw
      rcases List.mem_cons.mp hw with rfl | hw
      · exact hexact w rfl
      · exact hin.exact_waiting w (List.mem_append_right _ hw)

/-- The machine follows an operation on a value. -/
theorem follows_unary {op : UnaryOp} {v : Value} {line : Nat}
    (hholds : c.Holds m.pc (Code.plain line [backend.unary op]))
    (hin : InStep s.vars frame (v :: waiting) session m) :
    Follows c bound m
      (fun w => Behind s.vars (w :: waiting) (Code.plain line [backend.unary op]) m)
      (Exec.ofEval (Eval.ofExcept (op.apply line v)) session) := by
  have hnext := (next_of_holds hholds).1
  have hv := hin.exact_waiting v List.mem_cons_self
  exact follows_operation [v] hnext (step_unary hnext hin.stack) (fun _ => UnaryOp.apply_line)
    (fun _ h => UnaryOp.apply_exact h hv) hin

/-- A binary operator is one instruction, or another comparison and its negation. -/
theorem ofBinary_cases (op : BinaryOp) :
    (∃ o, ofBinary op = [o]) ∨
      ∃ base o, op.negated? = some base ∧ ofBinary base = [o] ∧ ofBinary op = [o, not] := by
  cases op with
  | add | subtract | multiply | divide | equal | less | greater => exact .inl ⟨_, rfl⟩
  | notEqual | greaterEqual | lessEqual => exact .inr ⟨_, _, rfl, rfl, rfl⟩

/-- The machine follows an operation on two values, also where it takes two instructions. -/
theorem follows_binary {op : BinaryOp} {left right : Value} {line : Nat}
    (hholds : c.Holds m.pc (Code.plain line (ofBinary op)))
    (hin : InStep s.vars frame (right :: left :: waiting) session m) :
    Follows c bound m (fun v => Behind s.vars (v :: waiting) (Code.plain line (ofBinary op)) m)
      (Exec.ofEval (Eval.ofExcept (op.apply line left right)) session) := by
  have hleft : left.Exact := hin.exact_waiting left (by simp)
  rcases ofBinary_cases op with ⟨o, hop⟩ | ⟨base, o, hnegated, hbase, hop⟩
  -- the operation has an instruction of its own
  · rw [hop] at hholds ⊢
    have hnext := (next_of_holds hholds).1
    exact follows_operation [right, left] hnext (step_binary hnext hop hin.stack)
      (fun _ => BinaryOp.apply_line) (fun _ h => BinaryOp.apply_exact h hleft) hin
  -- it is the negation of another comparison, with two instructions
  · rw [hop] at hholds ⊢
    rcases session with ⟨scopes, sink⟩
    rcases next_of_holds hholds with ⟨hnext, hrest⟩
    have hstep := step_binary hnext hbase hin.stack
    rcases BinaryOp.apply_negated hnegated line hleft right with
      ⟨b, hb, happly⟩ | ⟨⟨e, he⟩, e', he'⟩
    · -- The other comparison gives a truth value, which is negated.
      rw [hb] at hstep
      rw [happly]
      let m' := m.behind o (.bool b :: (waiting ++ frame.values))
      have hnext' : Next c m' (backend.unary .not) 0 line := (next_of_holds hrest).1
      have hnot : step c m' = .next (m'.behind not (.bool (!b) :: (waiting ++ frame.values))) :=
        step_unary hnext' rfl
      refine .after_step hstep (.after_step hnot (.here ⟨?_, frame, ?_⟩))
      · simp [m', Code.plain, Nat.add_assoc]
      · refine hin.restack rfl rfl rfl ?_
        intro w hw
        rcases List.mem_cons.mp hw with rfl | hw
        · exact Value.exact_bool _
        · exact hin.exact_waiting w (by simp [hw])
    · -- The other comparison fails already.
      rw [he] at hstep
      rw [he']
      exact .fail hnext hstep hin.output (BinaryOp.apply_line he')

/-- The value on top of the stack is dropped. -/
theorem step_drop {vars : PoolVars} {v : Value} {line : Nat}
    (hholds : c.Holds m.pc (Code.plain line [backend.pop]))
    (hin : InStep vars frame (v :: waiting) session m) :
    ∃ m', step c m = .next m' ∧ m'.pc = m.pc + Code.size (Code.plain line [backend.pop]) ∧
      InStep vars frame waiting session m' := by
  refine ⟨_, step_pop (next_of_holds hholds).1 hin.stack, rfl, ?_⟩
  refine hin.restack rfl rfl rfl ?_
  intro w hw
  exact hin.exact_waiting w (List.mem_cons_of_mem _ hw)

/-- Behind the left operand of a logical operator, a jump skips the right one if the left one
decides. -/
theorem follows_shortCut {op : LogicalOp} {l : Value} {line : Nat} {skipped : Code PoolOp}
    {right : Eval Value}
    (hholds : c.Holds m.pc (Code.onLine line
      (backend.shortCutLead op ++ [(backend.shortCutJump op, (skipped.size : Int))]) ++ skipped))
    (hin : InStep s.vars frame (l :: waiting) session m) (hscope : s.vars.SameScope t.vars)
    (hright : ∀ m', c.Holds m'.pc skipped → InStep s.vars frame (l :: waiting) session m' →
      Follows c bound m' (fun v => Behind t.vars (v :: waiting) skipped m')
        (Exec.ofEval right session)) :
    Follows c bound m
      (fun v => Behind t.vars (v :: waiting) (Code.onLine line
        (backend.shortCutLead op ++ [(backend.shortCutJump op, (skipped.size : Int))]) ++ skipped) m)
      (Exec.ofEval (if op.decidedBy l then pure l else right) session) := by
  rcases session with ⟨scopes, sink⟩
  rcases Chunk.holds_append.mp hholds with ⟨hlead, hskipped⟩
  -- the left operand stays on the stack while the jump decides
  have hon : InStep s.vars frame (l :: waiting) ⟨scopes, sink⟩
      (m.behind jumpIfFalse (l :: (waiting ++ frame.values))) :=
    hin.restack rfl rfl rfl hin.exact_waiting
  cases op with
  | and =>
      have hnext : Next c m jumpIfFalse skipped.size line := (next_of_holds hlead).1
      have htarget : ((m.pc + Opcode.width jumpIfFalse : Nat) : Int) + skipped.size
          = ((m.pc + Opcode.width jumpIfFalse + skipped.size : Nat) : Int) := by push_cast; rfl
      have hstep := step_jumpIfFalse hnext hin.stack htarget
      by_cases hl : l.truthy
      · rw [if_pos hl] at hstep
        simp only [LogicalOp.decidedBy, hl]
        refine .after_step hstep ((hright _ hskipped hon).mono ?_)
        intro v session' m' h
        exact h.append rfl
      · rw [if_neg hl] at hstep
        simp only [LogicalOp.decidedBy, hl]
        refine .after_step hstep (.here ⟨?_, frame, (hin.moved _).congr hscope⟩)
        simp [Backend.shortCutLead, Backend.shortCutJump, backend, Nat.add_assoc]
  | or =>
      rcases next_of_holds hlead with ⟨hnext, hjump⟩
      have htarget : ((m.pc + Opcode.width jumpIfFalse : Nat) : Int) + Opcode.width jump
          = ((m.pc + Opcode.width jumpIfFalse + Opcode.width jump : Nat) : Int) := by push_cast; rfl
      have hstep := step_jumpIfFalse hnext hin.stack htarget
      by_cases hl : l.truthy
      · -- On to the second jump, which goes to the end.
        rw [if_pos hl] at hstep
        simp only [LogicalOp.decidedBy, hl]
        let m' := m.behind jumpIfFalse (l :: (waiting ++ frame.values))
        have hnext' : Next c m' jump skipped.size line := (next_of_holds hjump).1
        have htarget' : ((m'.pc + Opcode.width jump : Nat) : Int) + skipped.size
            = ((m'.pc + Opcode.width jump + skipped.size : Nat) : Int) := by push_cast; rfl
        have hstep' := step_jump hnext' (.inl rfl) htarget'
        refine .after_step hstep
          (.after_step hstep' (.here ⟨?_, frame, (hon.moved _).congr hscope⟩))
        simp [m', Backend.shortCutLead, Backend.shortCutJump, backend, Nat.add_assoc]
      · -- Over the second jump, to the right operand.
        rw [if_neg hl] at hstep
        simp only [LogicalOp.decidedBy, hl]
        refine .after_step hstep ((hright _ hskipped (hin.moved _)).mono ?_)
        intro v session' m' h
        exact h.append rfl

/-- The code of an expression leaves the value of the expression on the stack. -/
theorem follows_eval {e : Expr} {kind : StaticKind} (h : backend.Emits s e kind code t)
    (he : e.exact = true) (hs : InOrder s.pool s.vars) (hpool : t.pool.Extends c.pool)
    (hholds : c.Holds m.pc code) (hin : InStep s.vars frame waiting session m) :
    Follows c bound m (fun v => Behind t.vars (v :: waiting) code m)
      (Exec.ofEval e.eval session) := by
  -- on how the code was emitted; the operands that wait on the stack are those around the
  -- expression
  induction h generalizing frame waiting session m with
  | @literal s t line value code _ hcode =>
      have hvalue : value.Exact := by simpa [Expr.exact, Value.Exact] using he
      exact follows_literal hcode hvalue hpool hholds hin
  | group _ ih => exact ih he hs hpool hholds hin
  | unary _ _ _ ih =>
      rw [Expr.eval, Exec.ofEval_bind]
      refine .seq hholds (fun hoperand => ih he hs hpool hoperand hin) ?_
      intro v session' m' frame' hback hin'
      exact follows_unary hback hin'
  | binary hleft hright _ _ ihLeft ihRight =>
      rw [Expr.exact, Bool.and_eq_true] at he
      have ht := (backend_lawful.adds_of_emits hleft hs).inv
      have hpool' := (backend_lawful.adds_of_emits hright ht).pool_extends.trans hpool
      rw [Expr.eval, Exec.ofEval_bind]
      refine .seq hholds (fun hholds => ihLeft he.1 hs hpool' hholds hin) ?_
      intro l session' m' frame' hholds hin
      rw [Exec.ofEval_bind]
      refine .seq hholds (fun hholds => ihRight he.2 ht hpool hholds hin) ?_
      intro r session' m' frame' hholds hin
      exact follows_binary hholds hin
  | ident _ hcode => exact follows_fetch hcode hs hpool hholds hin
  | assign hvalue _ hstore ih =>
      have ht := (backend_lawful.adds_of_emits hvalue hs).inv
      have hpool' := (backend_lawful.store hstore ht).pool_extends.trans hpool
      rw [Expr.eval, Exec.ofEval_bind]
      refine .seq hholds (fun hholds => ih he hs hpool' hholds hin) ?_
      intro v session' m' frame' hholds hin
      rw [Exec.ofEval_bind]
      refine (follows_store hstore ht hpool hholds hin).bind ?_
      intro _ session' m' h
      exact .here h
  | @logical s t u line op left right _ _ leftCode rightCode skipped hleft _ hright hskipped _
      ihLeft ihRight =>
      rw [Expr.exact, Bool.and_eq_true] at he
      have ht := (backend_lawful.adds_of_emits hleft hs).inv
      have hpool' := (backend_lawful.adds_of_emits hright ht).pool_extends.trans hpool
      -- the left operand need not be kept by an instruction, as jumps leave it on the stack
      have hcode : [leftCode, Code.plain line backend.keep,
            Code.onLine line (backend.shortCutLead op ++
              [(backend.shortCutJump op, (Code.size skipped : Int))]), skipped].flatten
          = leftCode ++ (Code.onLine line (backend.shortCutLead op ++
              [(backend.shortCutJump op, (Code.size skipped : Int))]) ++ skipped) := by
        simp [backend, Code.plain, Code.onLine]
      rw [hcode] at hholds ⊢
      rw [Expr.eval, Exec.ofEval_bind]
      refine .seq hholds (fun hholds => ihLeft he.1 hs hpool' hholds hin) ?_
      intro l session' m' frame' hholds hin
      have hscope : (t.onLine line).vars.SameScope u.vars := emits_sameScope hright ht
      refine follows_shortCut hholds hin hscope ?_
      intro m' hholds hin
      subst hskipped
      rcases Chunk.holds_append.mp hholds with ⟨hpop, hholds⟩
      rcases step_drop hpop hin with ⟨m'', hstep, hpc, hin'⟩
      rw [← hpc] at hholds
      refine .after_step hstep ((ihRight he.2 ht hpool hholds hin').mono ?_)
      intro v session'' m''' h
      exact h.append hpc

end Expressions

end PoolOp

end Scriptlet
