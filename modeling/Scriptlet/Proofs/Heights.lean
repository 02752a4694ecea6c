import Scriptlet.Proofs.Balance
import Scriptlet.Proofs.Preservation

/-! # Heights of the stack

A chunk passes the verifier if each of its offsets can be given a height of the stack such that every
instruction finds its operands, and every edge of the control flow, to the next instruction or to the
target of a jump, leads to an instruction at the height that is left. Generated code passes, on the
paths that a run takes and on all others: the code of a program ends with an empty stack, and the code
of an expression with one value.

The pool machine keeps the variables of blocks on the stack, so the height between two statements is
the number of these variables. Outside of all blocks it is zero, since variables are global there.
-/

namespace Scriptlet

variable {ω ν : Type}

/-! ## The two backends -/

namespace PoolOp

open Gen PoolVars Effects

/-- Between two statements, the local variables are on the stack. -/
def base (v : PoolVars) : Nat :=
  v.locals.length

/-- A literal is pushed. -/
theorem literal_balanced {v : Value} {s t : GenState PoolVars} {code : Code PoolOp}
    (h : backend.literal v s = .ok (code, t)) (x : Nat) : effects.Balanced code x (x + 1) := by
  rcases literal_ok h with ⟨op, hop, rfl, -⟩ | ⟨-, -, rfl, -⟩
  · unfold ofLiteral? at hop
    split at hop <;> cases hop <;> exact .plain rfl (Nat.zero_le _) rfl
  · exact .onLine rfl (Nat.zero_le _) (by rintro ⟨⟩) rfl

/-- The slot of a local variable is in use wherever the variable can be named. -/
theorem access_balanced {onLocal onGlobal : PoolOp} {name : String} {s t : GenState PoolVars}
    {code : Code PoolOp} {x y : Nat} (h : access onLocal onGlobal name s = .ok (code, t))
    (hs : InOrder s.pool s.vars) (hx : base s.vars ≤ x)
    (hlocal : Opcode.layout onLocal = .byte) (hglobal : Opcode.layout onGlobal = .constant)
    (hoperands : effects.pops onLocal ≤ x ∧ effects.pops onGlobal ≤ x)
    (hy : effects.after onLocal x = y ∧ effects.after onGlobal x = y) :
    effects.Balanced code x y := by
  rcases access_ok h hs with ⟨slot, hslot, rfl, -⟩ | ⟨-, index, -, rfl⟩
  · have hlt : slot < base s.vars := slotOf?_lt hslot
    exact .onLine (by rw [hlocal]; rfl) hoperands.1 (fun _ => by omega) hy.1
  · exact .onLine (by rw [hglobal]; rfl) hoperands.2 (by simp [hglobal]) hy.2

/-- The initial value becomes the slot of a local variable, or is taken off into a global. -/
theorem declare_balanced {name : String} {s t : GenState PoolVars} {code : Code PoolOp}
    (h : backend.declare name s = .ok (code, t)) (hs : InOrder s.pool s.vars) :
    effects.Balanced code (base s.vars + 1) (base t.vars) := by
  rcases declare_ok h hs with ⟨-, -, rfl, rfl⟩ | ⟨-, index, hnamed, rfl⟩
  · exact .nil _
  · have hbase : base t.vars = base s.vars := congrArg List.length hnamed.locals_eq
    rw [hbase]
    exact .onLine rfl (Nat.le_add_left ..) (by rintro ⟨⟩) rfl

/-- The left operand stays if the jump is taken, and the skipped code replaces it if not. -/
theorem shortCut_balanced (op : LogicalOp) (line x : Nat) {skipped : Code PoolOp}
    (h : effects.Balanced skipped (x + 1) (x + 1)) :
    effects.Balanced (Code.onLine line
        (backend.shortCutLead op ++ [(backend.shortCutJump op, (Code.size skipped : Int))])
      ++ skipped) (x + 1) (x + 1) := by
  cases op with
  | and =>
      let jump : Instr PoolOp := { op := jumpIfFalse, arg := Code.size skipped, line }
      exact h.skip (i := jump) rfl (Nat.le_add_left ..) rfl rfl
  | or =>
      -- A false operand leads behind the jump to the end.
      let lead : Instr PoolOp := { op := jumpIfFalse, arg := Opcode.width PoolOp.jump, line }
      let jump : Instr PoolOp := { op := jump, arg := Code.size skipped, line }
      have hbranch : effects.Balanced (lead :: ([] ++ jump :: skipped)) (x + 1) (x + 1) :=
        .branch (.nil _) h rfl (Nat.le_add_left ..) rfl rfl rfl ⟨rfl, rfl, rfl⟩ rfl
      exact hbranch

/-- Each construct changes the height of the pool machine's stack as it should. -/
theorem backend_balances : backend.Balances effects InOrder base where
  literal := literal_balanced
  fetch h hs x hx :=
    access_balanced h hs hx rfl rfl ⟨Nat.zero_le _, Nat.zero_le _⟩ ⟨rfl, rfl⟩
  store h hs x hx :=
    access_balanced h hs (Nat.le_succ_of_le hx) rfl rfl ⟨Nat.le_add_left .., Nat.le_add_left ..⟩
      ⟨rfl, rfl⟩
  declare := declare_balanced
  unset line x := .onLine rfl (Nat.zero_le _) (by rintro ⟨⟩) rfl
  unary op line x := by cases op <;> exact .plain rfl (Nat.le_add_left ..) rfl
  binary op line x := by
    -- a comparison that is the negation of another one takes two instructions
    have hpair {first : PoolOp} (hlayout : Opcode.layout first = .none)
        (hpops : effects.pops first ≤ x + 2) (hafter : effects.after first (x + 2) = x + 1) :
        effects.Balanced (Code.plain line [first, not]) (x + 2) (x + 1) := by
      have hnot : effects.Balanced (Code.plain line [not]) (x + 1) (x + 1) :=
        .plain rfl (Nat.le_add_left ..) rfl
      exact (Balanced.plain hlayout hpops hafter).append hnot
    cases op with
    | notEqual | greaterEqual | lessEqual => exact hpair rfl (Nat.le_add_left ..) rfl
    | add | subtract | multiply | divide | equal | greater | less =>
        exact .plain rfl (Nat.le_add_left ..) rfl
  print line x := .plain rfl (Nat.le_add_left ..) rfl
  pop line x := .plain rfl (Nat.le_add_left ..) rfl
  jumpUnless := rfl
  drop line x := .plain rfl (Nat.le_add_left ..) rfl
  jump := ⟨rfl, rfl, rfl⟩
  loop := ⟨rfl, rfl, rfl⟩
  stop := ⟨rfl, rfl, rfl⟩
  shortCut op line x _ h := shortCut_balanced op line x h
  enter v := rfl
  leave v := by
    -- the variables of a block and those around it are all of them
    have h := congrArg List.length (List.takeWhile_append_dropWhile
      (p := fun (l : Local) => decide (v.depth - 1 < l.depth)) (l := v.locals))
    rw [List.length_append] at h
    exact h.symm

/-- The same local variables are on the stack. -/
theorem base_eq_of_sameScope {v w : PoolVars} (h : v.SameScope w) : base w = base v := by
  rw [base, h.1]
  rfl

/-- Statements that declare nothing here leave the same local variables on the stack. -/
theorem backend_steady : backend.Steady InOrder Nested base where
  enter h l hl := Nat.le_succ_of_le (h l hl)
  expr h hs := by
    have hscope := emits_sameScope h hs
    exact ⟨base_eq_of_sameScope hscope, hscope.grows.nested⟩
  stmt h hplaced hs hnested := by
    rcases emitsStmt_grows h hplaced hs hnested with ⟨hgrows, hscope⟩
    exact ⟨hgrows.nested hnested, fun hdeclares => base_eq_of_sameScope (hscope hdeclares)⟩

/-- Outside of all blocks, variables are global. -/
theorem emitsStmt_top {s t : GenState PoolVars} {st : Stmt} {code : Code PoolOp}
    (h : backend.EmitsStmt s st code t) (hplaced : st.placed = true) (hs : InOrder s.pool s.vars)
    (hnested : s.vars.Nested) (hdepth : s.vars.depth = 0) : s.vars.SameScope t.vars := by
  -- outside of all blocks a declaration makes a global, so no local is added
  have hglobal {name : String} {u w : GenState PoolVars} {code : Code PoolOp}
      (h : backend.declare name u = .ok (code, w)) (hu : InOrder u.pool u.vars)
      (hdepth : u.vars.depth = 0) : u.vars.SameScope w.vars := by
    rcases declare_ok h hu with ⟨hpos, -⟩ | ⟨-, index, hnamed, -⟩
    · omega
    · exact ⟨hnamed.locals_eq, hnamed.depth_eq⟩
  by_cases hdeclares : st.declares = false
  · exact (emitsStmt_grows h hplaced hs hnested).2 hdeclares
  · cases h with
    | var hvalue _ hdeclare =>
        have hscope := emits_sameScope hvalue hs
        have ht := (backend_lawful.adds_of_emits hvalue hs).inv
        have hdeclared := hglobal hdeclare ht (hscope.2.trans hdepth)
        exact hscope.trans hdeclared
    | varUnset _ hdeclare =>
        have hdeclared := hglobal hdeclare hs hdepth
        exact hdeclared
    | print | expression | block | ifThen | whileDo => exact absurd rfl hdeclares

/-- Statements outside of all blocks leave no local variables behind. -/
theorem emitsAll_top {s t : GenState PoolVars} {sts : List Stmt} {code : Code PoolOp}
    (h : backend.EmitsAll s sts code t) (hplaced : Stmt.allPlaced sts = true)
    (hs : InOrder s.pool s.vars) (hnested : s.vars.Nested) (hdepth : s.vars.depth = 0) :
    s.vars.SameScope t.vars := by
  induction sts generalizing s code with
  | nil =>
      cases h
      exact .refl _
  | cons st sts ih =>
      cases h with
      | cons hfirst hrest =>
          rw [Stmt.allPlaced, Bool.and_eq_true] at hplaced
          have hscope := emitsStmt_top hfirst hplaced.1 hs hnested hdepth
          have ht := (backend_lawful.adds_of_emitsStmt hfirst hs).inv
          exact hscope.trans
            (ih hrest hplaced.2 ht (hscope.grows.nested hnested) (hscope.2.trans hdepth))

end PoolOp

namespace WordOp

open Gen WordVars Effects

/-- Variables have slots of their own, and none of them is on the stack. -/
def base (_ : WordVars) : Nat :=
  0

/-- The left operand was copied, and the jump takes the copy. -/
theorem shortCut_balanced (op : LogicalOp) (line x : Nat) {skipped : Code WordOp}
    (h : effects.Balanced skipped (x + 1) (x + 1)) :
    effects.Balanced (Code.onLine line
        (backend.shortCutLead op ++ [(backend.shortCutJump op, (Code.size skipped : Int))])
      ++ skipped) (x + 2) (x + 1) := by
  let jump : Instr WordOp := { op := backend.shortCutJump op, arg := Code.size skipped, line }
  cases op with
  | and => exact h.skip (i := jump) rfl (Nat.le_add_left ..) rfl rfl
  | or => exact h.skip (i := jump) rfl (Nat.le_add_left ..) rfl rfl

/-- Each construct changes the height of the word machine's stack as it should. -/
theorem backend_balances : backend.Balances effects Inv base where
  literal h x := by
    rcases literal_ok h with ⟨word, -, rfl, -⟩
    exact .onLine rfl (Nat.zero_le _) (by rintro ⟨⟩) rfl
  fetch h _ x _ := by
    rcases fetch_ok h with ⟨n, -, rfl, -⟩
    exact .onLine rfl (Nat.zero_le _) (by rintro ⟨⟩) rfl
  store {_ s _ _} h _ x _ := by
    rcases store_ok h with ⟨n, -, rfl, -⟩
    -- the value of an assignment stays, so a copy of it is stored
    have hdup : effects.Balanced (Code.plain s.line [dup]) (x + 1) (x + 2) :=
      .plain rfl (Nat.le_add_left ..) rfl
    have hset : effects.Balanced (Code.onLine s.line [(setVar, (n : Int))]) (x + 2) (x + 1) :=
      .onLine rfl (Nat.le_add_left ..) (by rintro ⟨⟩) rfl
    exact hdup.append hset
  declare h _ := by
    obtain ⟨n, u, -, hcode⟩ := bind_eq_ok.mp h
    cases instrs_eq_ok.mp hcode
    exact .onLine rfl (Nat.le_add_left ..) (by rintro ⟨⟩) rfl
  unset line x := .onLine rfl (Nat.zero_le _) (by rintro ⟨⟩) rfl
  unary op line x := by cases op <;> exact .plain rfl (Nat.le_add_left ..) rfl
  binary op line x := by cases op <;> exact .plain rfl (Nat.le_add_left ..) rfl
  print line x := .plain rfl (Nat.le_add_left ..) rfl
  pop line x := .plain rfl (Nat.le_add_left ..) rfl
  jumpUnless := rfl
  drop line x := .nil x
  jump := ⟨rfl, rfl, rfl⟩
  loop := ⟨rfl, rfl, rfl⟩
  stop := ⟨rfl, rfl, rfl⟩
  shortCut op line x _ h := by
    -- the jump takes the copy of the left operand, and leaves the operand
    have hdup : effects.Balanced (Code.plain line [dup]) (x + 1) (x + 2) :=
      .plain rfl (Nat.le_add_left ..) rfl
    exact hdup.append (shortCut_balanced op line x h)
  enter v := rfl
  leave v := rfl

theorem backend_steady : backend.Steady Inv (fun _ => True) base where
  enter _ := trivial
  expr _ _ := ⟨rfl, id⟩
  stmt _ _ _ _ := ⟨trivial, fun _ => rfl⟩

end WordOp

/-! ## Whole chunks -/

/-- An instruction stands in front of the ending, or it is the ending. -/
theorem Code.cases_ending {ending i : Instr ω} {code front back : Code ω}
    (h : code ++ [ending] = front ++ i :: back) :
    (∃ back', back = back' ++ [ending] ∧ code = front ++ i :: back') ∨
      (back = [] ∧ front = code ∧ i = ending) := by
  rcases List.eq_nil_or_concat back with rfl | ⟨back', last, rfl⟩
  · rcases List.append_inj' h rfl with ⟨hfront, hi⟩
    exact .inr ⟨rfl, hfront.symm, (List.singleton_inj.mp hi).symm⟩
  · rw [List.concat_eq_append, ← List.cons_append, ← List.append_assoc] at h
    rcases List.append_inj' h rfl with ⟨hcode, hlast⟩
    rw [List.concat_eq_append, List.singleton_inj.mp hlast]
    exact .inl ⟨back', rfl, hcode⟩

variable [Opcode ω]

/-- An assignment of heights that passes the verifier: the program begins with an empty stack, every
instruction finds its operands, a slot of the stack that it names is in use, all edges of the control
flow lead to instructions at the height that they leave, and the last instruction is the terminator, the
only one of its kind, at the height `final`. -/
structure Verified (fx : Effects ω) (stop : ω) (final : Nat) (records : List (Record ω))
    (height : Nat → Nat) : Prop where
  starts : height 0 = 0
  operands : ∀ r ∈ records, fx.pops r.op ≤ height r.offset
  slots : ∀ r ∈ records, Opcode.layout r.op = .byte →
    0 ≤ r.instr.arg ∧ r.instr.arg < height r.offset
  continues : ∀ r ∈ records, fx.continues r.op = true →
    ∃ r' ∈ records, r'.offset = r.next ∧ height r'.offset = fx.after r.op (height r.offset)
  jumps : ∀ r ∈ records, (Opcode.layout r.op).isJump = true →
    ∃ r' ∈ records, r.target? = some r'.offset ∧
      height r'.offset = fx.after r.op (height r.offset)
  terminator : ∃ front last, records = front ++ [last] ∧ last.op = stop ∧ ∀ r ∈ front, r.op ≠ stop
  ends : ∀ r ∈ records, r.op = stop → height r.offset = final

/-- Code that passes is not empty: it holds at least its terminator. -/
theorem Verified.ne_nil {fx : Effects ω} {stop : ω} {final : Nat} {records : List (Record ω)}
    {height : Nat → Nat} (h : Verified fx stop final records height) : records ≠ [] := by
  obtain ⟨front, last, rfl, -⟩ := h.terminator
  exact List.append_ne_nil_of_right_ne_nil front (List.cons_ne_nil last [])

namespace Backend.Balances

variable {b : Backend ω ν} {fx : Effects ω} {Inv : Pool → ν → Prop} {Kept : ν → Prop}
  {base : ν → Nat} {pool : Pool} {vars : ν} {code : Code ω} {final : Nat}

/-- Balanced code with the end of the program behind it passes the verifier. -/
theorem verified_ofCode (hh : b.Balances fx Inv base) (hb : b.Lawful Inv)
    (hadds : b.Adds Inv #[] code pool vars) (hcode : fx.Balanced code 0 final) (line : Nat) :
    ∃ records height, (Chunk.ofCode pool (code ++ Code.plain line [b.stop])).decode = .ok records ∧
      Verified fx b.stop final records height := by
  rcases hcode with ⟨height, hstart, hend, hplaced⟩
  have hwell := hb.wellFormed_ofCode hadds line
  let ending : Instr ω := { op := b.stop, arg := 0, line }
  have hending : fx.Obeys height (0 + Code.size code) (Code.size code) ending := by
    constructor
    · rw [hh.stop.pops]
      exact Nat.zero_le _
    · intro hlayout
      rw [hb.stop] at hlayout
      cases hlayout
    · intro hcontinues
      rw [hh.stop.continues] at hcontinues
      cases hcontinues
    · intro hjump
      rw [hb.stop] at hjump
      cases hjump
  have hobeys := hplaced.append (Effects.Placed.single hending)
  refine ⟨_, height, hwell.decodes, hstart, ?_, ?_, ?_, ?_, hwell.ends, ?_⟩
  all_goals
    intro r hr
    rcases Code.mem_records.mp hr with ⟨front, i, back, hsplit, rfl⟩
    have hi := hobeys front i back hsplit
  · exact hi.operands
  · exact hi.slot
  · intro hcontinues
    -- The ending does not continue, so there is an instruction behind this one.
    rcases back with _ | ⟨j, back⟩
    · rcases Code.cases_ending hsplit with ⟨back', hback, -⟩ | ⟨-, -, rfl⟩
      · simp at hback
      · have hstop : fx.continues b.stop = true := hcontinues
        rw [hh.stop.continues] at hstop
        cases hstop
    · refine ⟨j.record pool (0 + Code.size (front ++ [i])), ?_, ?_, ?_⟩
      · exact Code.mem_records.mpr ⟨front ++ [i], j, back, by simp [hsplit], rfl⟩
      · simp [Instr.record, Record.next, Record.width]
      · have hnext := hi.next hcontinues
        simpa [Instr.record, Record.op, Nat.add_assoc] using hnext
  · intro hjump
    -- Well-formedness knows the instruction that a jump leads to, the heights know its height.
    rcases hwell.jumps _ hr hjump with ⟨r', hr', htarget⟩
    rcases hi.jump hjump with ⟨target, hoffset, -, hheight⟩
    have hsame : r'.offset = target :=
      Option.some.inj (htarget.symm.trans (Instr.target?_record hjump hoffset))
    exact ⟨r', hr', htarget, by rw [hsame]; exact hheight⟩
  · intro hstop
    -- Generated code in front of the ending never stops.
    rcases Code.cases_ending hsplit with ⟨back', -, hcode⟩ | ⟨-, rfl, -⟩
    · have hinner := hadds.inner i (by simp [hcode])
      exact absurd hstop hinner.continues
    · simpa [Instr.record] using hend

/-- Where a step of generation gives balanced code, its chunk passes the verifier. -/
theorem verified_of_assemble (hh : b.Balances fx Inv base) (hb : b.Lawful Inv)
    {step : Gen ν (Code ω)} {c : Chunk} (hc : b.assemble step = .ok c)
    (hcode : ∀ code t, step b.start = .ok (code, t) →
      b.Adds Inv #[] code t.pool t.vars ∧ fx.Balanced code 0 final) :
    ∃ records height, c.decode = .ok records ∧ Verified fx b.stop final records height := by
  rcases hstep : step b.start with e | ⟨code, t⟩
  · rw [b.assemble_eq_error hstep] at hc
    cases hc
  · rcases hcode code t hstep with ⟨hadds, hbalanced⟩
    rw [b.assemble_eq_ok hstep fun i hi => (hadds.inner i hi).valid.line_nonneg] at hc
    cases hc
    exact hh.verified_ofCode hb hadds hbalanced t.line

/-- The code of a program leaves nothing on the stack if, outside of all blocks, no variable is
there. -/
theorem verified_program (hh : b.Balances fx Inv base) (hb : b.Lawful Inv)
    (hk : b.Steady Inv Kept base) (hfresh : base b.fresh = 0) (hkept : Kept b.fresh) {p : Program}
    {c : Chunk} (hplaced : Stmt.allPlaced p = true)
    (hsettled : ∀ code t, b.EmitsAll b.start p code t → base t.vars = 0)
    (hc : b.program p = .ok c) :
    ∃ records height, c.decode = .ok records ∧ Verified fx b.stop 0 records height := by
  refine hh.verified_of_assemble hb hc ?_
  intro code t hstmts
  rcases b.emitsAll_of_stmts hstmts with ⟨rest, rfl, hemits⟩
  have hbalanced := hh.of_emitsAll hb hk hemits hplaced hb.fresh hkept
  rw [hsettled _ _ hemits, show base b.start.vars = 0 from hfresh] at hbalanced
  exact ⟨hb.adds_of_emitsAll hemits hb.fresh, hbalanced⟩

/-- The code of an expression leaves its value on the stack. -/
theorem verified_expression (hh : b.Balances fx Inv base) (hb : b.Lawful Inv)
    (hk : b.Steady Inv Kept base) (hfresh : base b.fresh = 0) {e : Expr} {c : Chunk}
    (hc : b.expression e = .ok c) :
    ∃ records height, c.decode = .ok records ∧ Verified fx b.stop 1 records height := by
  refine hh.verified_of_assemble hb hc ?_
  intro code t hexpr
  rcases Gen.bind_eq_ok.mp hexpr with ⟨⟨kind, code'⟩, t', hexpr, hpure⟩
  cases Gen.pure_eq_ok.mp hpure
  have hemits := b.emits_of_expr hexpr
  exact ⟨hb.adds_of_emits hemits hb.fresh, hh.of_emits hb hk hemits hb.fresh (Nat.le_of_eq hfresh)⟩

end Backend.Balances

/-- Outside of all blocks, variables of the pool machine are global, so nothing is left on the stack. -/
theorem PoolOp.verified_of_program {p : Program} {c : Chunk} (hplaced : Stmt.allPlaced p = true)
    (hc : PoolOp.backend.program p = .ok c) :
    ∃ records height, c.decode = .ok records ∧ Verified PoolOp.effects .return_ 0 records height := by
  have hnested : PoolVars.Nested PoolOp.backend.fresh := fun l hl => nomatch hl
  refine PoolOp.backend_balances.verified_program PoolOp.backend_lawful PoolOp.backend_steady rfl
    hnested hplaced ?_ hc
  intro code t hemits
  have hscope := PoolOp.emitsAll_top hemits hplaced PoolOp.backend_lawful.fresh hnested rfl
  exact PoolOp.base_eq_of_sameScope hscope

/-- A program for the word machine passes the verifier. -/
theorem WordOp.verified_of_program {p : Program} {c : Chunk} (hplaced : Stmt.allPlaced p = true)
    (hc : WordOp.backend.program p = .ok c) :
    ∃ records height, c.decode = .ok records ∧
      Verified WordOp.effects .stopScript 0 records height :=
  WordOp.backend_balances.verified_program WordOp.backend_lawful WordOp.backend_steady rfl
    trivial hplaced (fun _ _ _ => rfl) hc

/-- Is there an assignment of heights to the instructions of a chunk for a target, with the height
`final` at the end? -/
def Target.HasHeights : Target → (final : Nat) → Chunk → Prop
  | .word, final, c => ∃ (records : List (Record WordOp)) (height : Nat → Nat),
      c.decode = .ok records ∧ Verified WordOp.effects .stopScript final records height
  | .pool, final, c => ∃ (records : List (Record PoolOp)) (height : Nat → Nat),
      c.decode = .ok records ∧ Verified PoolOp.effects .return_ final records height

/-- Generated code passes the verifier for heights of the stack, for every target. The code of a
program in which variables are declared only outside of all statements or directly in a block leaves
an empty stack, and the code of an expression leaves one value. -/
theorem generated_heights (target : Target) :
    (∀ (p : Program) (c : Chunk), Stmt.allPlaced p = true → target.generate p = .ok c →
      target.HasHeights 0 c) ∧
      ∀ (e : Expr) (c : Chunk), target.generateExpr e = .ok c → target.HasHeights 1 c := by
  cases target with
  | word =>
      constructor
      · intro p c hplaced hc
        exact WordOp.verified_of_program hplaced hc
      · intro e c hc
        exact WordOp.backend_balances.verified_expression WordOp.backend_lawful WordOp.backend_steady
          rfl hc
  | pool =>
      constructor
      · intro p c hplaced hc
        exact PoolOp.verified_of_program hplaced hc
      · intro e c hc
        exact PoolOp.backend_balances.verified_expression PoolOp.backend_lawful PoolOp.backend_steady
          rfl hc

/-- A loop in a block, over a variable of the block and one of its own, and an alternative behind
it. -/
theorem generated_heights_nested_blocks :
    let sum : Expr := .binary 3 .add (.ident 3 "a") (.unary 3 .negate (.ident 3 "b"))
    let p : Program :=
      [.block 1
        [.var 1 "a" (some (.literal 1 (.int 1))),
          .whileDo 2 (.logical 2 .and (.binary 2 .less (.ident 2 "a") (.literal 2 (.int 3)))
              (.literal 2 (.bool true)))
            (.block 2 [.var 3 "b" none, .expression 3 (.assign 3 "a" sum)]),
          .ifThen 4 (.logical 4 .or (.ident 4 "a") (.literal 4 (.bool false)))
            (.print 4 (.ident 4 "a")) (some (.block 5 [.var 5 "c" (some (.ident 5 "a"))]))]]
    let e : Expr := .logical 1 .or (.literal 1 (.bool false)) (.literal 1 (.int 2))
    Stmt.allPlaced p = true ∧
    (∃ c, Target.word.generate p = .ok c ∧ Target.word.HasHeights 0 c) ∧
    (∃ c, Target.pool.generate p = .ok c ∧ Target.pool.HasHeights 0 c) ∧
    (∃ c, Target.word.generateExpr e = .ok c ∧ Target.word.HasHeights 1 c) ∧
    ∃ c, Target.pool.generateExpr e = .ok c ∧ Target.pool.HasHeights 1 c := by
  intro sum p e
  have hplaced : Stmt.allPlaced p = true := by decide +kernel
  have hok {r : Except GenError Chunk} (h : r.isOk = true) : ∃ c, r = .ok c := by
    cases r with
    | ok c => exact ⟨c, rfl⟩
    | error e => cases h
  rcases hok (r := Target.word.generate p) (by decide +kernel) with ⟨c₁, hc₁⟩
  rcases hok (r := Target.pool.generate p) (by decide +kernel) with ⟨c₂, hc₂⟩
  rcases hok (r := Target.word.generateExpr e) (by decide +kernel) with ⟨c₃, hc₃⟩
  rcases hok (r := Target.pool.generateExpr e) (by decide +kernel) with ⟨c₄, hc₄⟩
  exact ⟨hplaced, ⟨c₁, hc₁, (generated_heights .word).1 p c₁ hplaced hc₁⟩,
    ⟨c₂, hc₂, (generated_heights .pool).1 p c₂ hplaced hc₂⟩,
    ⟨c₃, hc₃, (generated_heights .word).2 e c₃ hc₃⟩,
    ⟨c₄, hc₄, (generated_heights .pool).2 e c₄ hc₄⟩⟩

end Scriptlet
