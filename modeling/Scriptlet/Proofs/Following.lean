import Scriptlet.Proofs.Running
import Scriptlet.Proofs.Sequencing
import Scriptlet.Proofs.WellFormed
import Scriptlet.Run.Exec

/-! # Following a run

`Follows` is the simulation between the evaluator and a machine: whatever a run of the evaluator comes
to, the machine comes to something that answers it. It is closed under sequences, so each piece of code
is followed on its own.

The layout of conditionals and loops is the same for all machines. A machine has to say what it does at
a conditional jump and at a plain one; that the code of the whole statement is followed then depends on
its parts only.
-/

namespace Scriptlet

open Machine

variable {α β σ ω ν : Type}

/-- A machine that runs chunks. -/
class CodeMachine (σ : Type) where
  /-- Carries out the next instruction of a chunk. -/
  step : Chunk → σ → Progress σ
  /-- The offset of the next instruction. -/
  pc : σ → Nat
  /-- What has been printed. -/
  output : σ → ByteArray

instance : CodeMachine PoolMachine where
  step := PoolMachine.step
  pc := PoolMachine.pc
  output := PoolMachine.output

instance : CodeMachine WordMachine where
  step := WordMachine.step
  pc := WordMachine.pc
  output := WordMachine.output

@[simp]
theorem PoolMachine.codeMachine_pc (m : PoolMachine) : CodeMachine.pc m = m.pc :=
  rfl

@[simp]
theorem WordMachine.codeMachine_pc (m : WordMachine) : CodeMachine.pc m = m.pc :=
  rfl

open CodeMachine

variable [CodeMachine σ]

/-- The machine follows a run of the evaluator. Where the run ends with a result, the machine gets to a
state that answers it; where it ends with an error, the machine fails with the same output on the line
of the error; where it stops short because a loop has reached its bound, the machine is still running
after as many steps. -/
def Follows (c : Chunk) (bound : Nat) (m : σ) (answers : α → Session → σ → Prop) :
    EStateM.Result Halt Session α → Prop
  | .ok a s => ∃ n m', Moves (step c) n m m' ∧ answers a s m'
  | .error (.error e) s =>
      ∃ n m', Moves (step c) n m m' ∧ step c m' = .failed ∧ output m' = s.sink.bytes ∧
        c.lineAt (pc m') = .ok e.line
  | .error .unfinished _ => ∃ n m', Moves (step c) n m m' ∧ bound ≤ n

namespace Follows

variable {c : Chunk} {bound : Nat} {m m' : σ} {s : Session} {Q : α → Session → σ → Prop}
  {R : β → Session → σ → Prop}

/-- A run that is followed with more rounds is followed with fewer. -/
theorem weaken {bound' : Nat} {r : EStateM.Result Halt Session α} (h : Follows c bound m Q r)
    (hbound : bound' ≤ bound) : Follows c bound' m Q r := by
  rcases r with ⟨a, s⟩ | ⟨e | _, s⟩
  · exact h
  · exact h
  · rcases h with ⟨n, m', hmoves, hn⟩
    exact ⟨n, m', hmoves, Nat.le_trans hbound hn⟩

/-- What the machine does before it follows counts. -/
theorem after_counted {n : Nat} {r : EStateM.Result Halt Session α} (hmoves : Moves (step c) n m m')
    (h : Follows c bound m' Q r) : Follows c (n + bound) m Q r := by
  rcases r with ⟨a, s⟩ | ⟨e | _, s⟩
  · rcases h with ⟨k, m'', hmoves', hQ⟩
    exact ⟨n + k, m'', hmoves.trans hmoves', hQ⟩
  · rcases h with ⟨k, m'', hmoves', hfail⟩
    exact ⟨n + k, m'', hmoves.trans hmoves', hfail⟩
  · rcases h with ⟨k, m'', hmoves', hbound⟩
    exact ⟨n + k, m'', hmoves.trans hmoves', Nat.add_le_add_left hbound n⟩

/-- A round of a loop that moves the machine counts. -/
theorem after_round {n : Nat} {r : EStateM.Result Halt Session α}
    (hmoves : Moves (step c) (n + 1) m m') (h : Follows c bound m' Q r) :
    Follows c (bound + 1) m Q r :=
  (h.after_counted hmoves).weaken (by omega)

/-- Steps of the machine in front of a run that it follows. -/
theorem after {n : Nat} {r : EStateM.Result Halt Session α} (hmoves : Moves (step c) n m m')
    (h : Follows c bound m' Q r) : Follows c bound m Q r :=
  (h.after_counted hmoves).weaken (Nat.le_add_left bound n)

/-- One step of the machine in front of a run that it follows. -/
theorem after_step {r : EStateM.Result Halt Session α} (hstep : step c m = .next m')
    (h : Follows c bound m' Q r) : Follows c bound m Q r :=
  h.after (.single hstep)

/-- The machine has nothing to do. -/
theorem here {a : α} (h : Q a s m) : Follows c bound m Q (.ok a s) :=
  ⟨0, m, .refl m, h⟩

/-- The machine fails at once. -/
theorem fail [Opcode ω] {e : RuntimeError} {op : ω} {arg : Int} {line : Nat}
    (hnext : c.decodeAt (pc m) = .ok (Instr.record c.pool (pc m) { op, arg, line }))
    (hstep : step c m = .failed) (houtput : output m = s.sink.bytes) (hline : e.line = line) :
    Follows c bound m Q (.error (.error e) s) := by
  have hat := (Chunk.decodeAt_ok hnext).2
  exact ⟨0, m, .refl m, hstep, houtput, by rw [hat, hline]; rfl⟩

/-- Where the run ends with a result, the machine may go on. -/
theorem onward {r : EStateM.Result Halt Session α} {Q' : α → Session → σ → Prop}
    (h : Follows c bound m Q r)
    (hQ : ∀ a s m', Q a s m' → ∃ n m'', Moves (step c) n m' m'' ∧ Q' a s m'') :
    Follows c bound m Q' r := by
  rcases r with ⟨a, s⟩ | ⟨e | _, s⟩
  · rcases h with ⟨n, m', hmoves, h⟩
    rcases hQ a s m' h with ⟨n', m'', hmoves', h'⟩
    exact ⟨n + n', m'', hmoves.trans hmoves', h'⟩
  · exact h
  · exact h

/-- What holds behind the run may be weakened. -/
theorem mono {r : EStateM.Result Halt Session α} {Q' : α → Session → σ → Prop}
    (h : Follows c bound m Q r) (hQ : ∀ a s m', Q a s m' → Q' a s m') : Follows c bound m Q' r :=
  h.onward fun a s m' hm' => ⟨0, m', .refl m', hQ a s m' hm'⟩

/-- The machine follows a sequence if it follows its parts. -/
theorem bind {x : Exec α} {f : α → Exec β} (hx : Follows c bound m Q (x s))
    (hf : ∀ a s' m', Q a s' m' → Follows c bound m' R (f a s')) :
    Follows c bound m R ((x >>= f) s) := by
  -- the first step ends, fails, or has run out of rounds, and the second one is run if it ends
  rcases hrun : x s with ⟨a, s'⟩ | ⟨e | _, s'⟩ <;> rw [hrun] at hx
  · rw [EStateM.bind_of_ok hrun]
    rcases hx with ⟨n, m', hmoves, hQ⟩
    exact (hf a s' m' hQ).after hmoves
  · rw [EStateM.bind_of_error hrun]
    exact hx
  · rw [EStateM.bind_of_error hrun]
    exact hx

/-- A scope is left however the step in it ends. -/
theorem inScope {x : Exec α} {Q' : α → Session → σ → Prop}
    (hx : Follows c bound m Q (x { s with scopes := s.scopes.enter }))
    (hQ : ∀ a s' m', Q a s' m' →
      ∃ n m'', Moves (step c) n m' m'' ∧ Q' a { s' with scopes := s'.scopes.leave } m'') :
    Follows c bound m Q' (Exec.inScope x s) := by
  rcases s with ⟨scopes, sink⟩
  rcases hrun : x { scopes := scopes.enter, sink } with ⟨a, s'⟩ | ⟨e | _, s'⟩ <;>
    simp only [Exec.inScope, hrun] at hx ⊢
  · rcases hx with ⟨n, m', hmoves, h⟩
    rcases hQ a s' m' h with ⟨n', m'', hmoves', h'⟩
    exact ⟨n + n', m'', hmoves.trans hmoves', h'⟩
  · exact hx
  · exact hx

/-- What the machine does about a run to its end. -/
theorem finish {x : Exec α} (h : Follows c bound m Q (x s)) :
    match x.finish s with
    | some (.ok a, s') => ∃ n m', Moves (step c) n m m' ∧ Q a s' m'
    | some (.error e, s') =>
        ∃ n m', Moves (step c) n m m' ∧ step c m' = .failed ∧ output m' = s'.sink.bytes ∧
          c.lineAt (pc m') = .ok e.line
    | none => ∃ n m', Moves (step c) n m m' ∧ bound ≤ n := by
  unfold Exec.finish
  rcases hrun : x s with ⟨a, s'⟩ | ⟨e | _, s'⟩ <;> rw [hrun] at h
  · exact h
  · exact h
  · exact h

end Follows

/-- Evaluation of a sequence is execution of a sequence. -/
theorem Exec.ofEval_bind (x : Eval α) (f : α → Eval β) :
    Exec.ofEval (x >>= f) = (Exec.ofEval x >>= fun a => Exec.ofEval (f a)) := by
  funext s
  rcases s with ⟨scopes, sink⟩
  simp only [Exec.ofEval, Bind.bind, EStateM.bind]
  rcases x scopes with _ | _ <;> rfl

/-! ## Code in sequence -/

variable [Opcode ω] {c : Chunk} {bound line : Nat} {m : σ} {s : Session}

/-- Behind some code, from the state `m`, the machine is in a state as described. -/
def Past (P : Session → σ → Prop) (code : Code ω) (m : σ) (s : Session) (m' : σ) : Prop :=
  pc m' = pc m + code.size ∧ P s m'

/-- Behind a second piece of code is behind both. -/
theorem Past.append {P : Session → σ → Prop} {front back : Code ω} {m' m'' : σ}
    (hpc : pc m' = pc m + front.size) (h : Past P back m' s m'') :
    Past P (front ++ back) m s m'' := by
  refine ⟨?_, h.2⟩
  rw [h.1, hpc, Code.size_append, Nat.add_assoc]

/-- Code in sequence follows steps in sequence. -/
theorem Follows.sequence {front back : Code ω} {x : Exec α} {f : α → Exec β}
    {P : α → Session → σ → Prop} {Q : β → Session → σ → Prop}
    (hholds : c.Holds (pc m) (front ++ back))
    (hx : c.Holds (pc m) front → Follows c bound m (fun a => Past (P a) front m) (x s))
    (hf : ∀ a s' m', c.Holds (pc m') back → P a s' m' →
      Follows c bound m' (fun b => Past (Q b) back m') (f a s')) :
    Follows c bound m (fun b => Past (Q b) (front ++ back) m) ((x >>= f) s) := by
  rcases Chunk.holds_append.mp hholds with ⟨hfront, hback⟩
  refine (hx hfront).bind ?_
  rintro a s' m' ⟨hpc, hP⟩
  rw [← hpc] at hback
  exact (hf a s' m' hback hP).mono fun _ _ _ h => h.append hpc

/-! ## Code with jumps -/

/-- What a machine does at a plain jump: in one step it is where the jump leads. -/
def Jumps (c : Chunk) (op : ω) (line : Nat) (P Q : Session → σ → Prop) : Prop :=
  ∀ (s : Session) (m : σ) (displacement : Int) (target : Nat), P s m →
    c.Holds (pc m) (Code.onLine line [(op, displacement)]) →
    ((pc m + Opcode.width op : Nat) : Int) + displacement = target →
    ∃ m', step c m = .next m' ∧ pc m' = target ∧ Q s m'

/-- What a machine does at a conditional jump and at the code that drops the condition: with a truth
value at hand it goes on behind the jump, or where the jump leads. -/
def Branches (c : Chunk) (b : Backend ω ν) (line : Nat) (P : Bool → Session → σ → Prop)
    (Q : Session → σ → Prop) : Prop :=
  ∀ (v : Bool) (s : Session) (m : σ) (displacement : Int) (target : Nat), P v s m →
    c.Holds (pc m) (Code.onLine line [(b.jumpUnless, displacement)]) →
    ((pc m + Opcode.width b.jumpUnless : Nat) : Int) + displacement = target →
    c.Holds (if v then pc m + Opcode.width b.jumpUnless else target) (Code.plain line b.drop) →
    ∃ n m', Moves (step c) (n + 1) m m' ∧
      pc m' = (if v then pc m + Opcode.width b.jumpUnless else target)
        + Code.size (Code.plain line b.drop) ∧ Q s m'

variable {b : Backend ω ν} {drop conditionCode : Code ω} {x : Exec Bool}
  {Decided : Bool → Session → σ → Prop}

/-- Code for a conditional follows the conditional. -/
theorem Follows.conditional {yesCode noCode : Code ω} {yes no : Exec Unit}
    {Ready Between Done : Session → σ → Prop} (hdrop : drop = Code.plain line b.drop)
    (hholds : c.Holds (pc m)
      [conditionCode,
        Code.onLine line
          [(b.jumpUnless, Code.size (drop ++ yesCode) + (Opcode.width b.jump : Int))],
        drop, yesCode, Code.onLine line [(b.jump, (Code.size (drop ++ noCode) : Int))],
        drop, noCode].flatten)
    (hbranches : Branches c b line Decided Ready) (hjumps : Jumps c b.jump line Between Done)
    (hcondition : c.Holds (pc m) conditionCode →
      Follows c bound m (fun v => Past (Decided v) conditionCode m) (x s))
    (hyes : ∀ s m, c.Holds (pc m) yesCode → Ready s m →
      Follows c bound m (fun _ => Past Between yesCode m) (yes s))
    (hno : ∀ s m, c.Holds (pc m) noCode → Ready s m →
      Follows c bound m (fun _ => Past Done noCode m) (no s)) :
    Follows c bound m
      (fun _ => Past Done
        [conditionCode,
          Code.onLine line
            [(b.jumpUnless, Code.size (drop ++ yesCode) + (Opcode.width b.jump : Int))],
          drop, yesCode, Code.onLine line [(b.jump, (Code.size (drop ++ noCode) : Int))],
          drop, noCode].flatten m)
      ((x >>= fun v => if v then yes else no) s) := by
  simp only [List.flatten_cons, List.flatten_nil, List.append_nil] at hholds ⊢
  simp only [Chunk.holds_append, Code.size_onLine_cons, Code.size_onLine_nil, Nat.add_zero] at hholds
  rcases hholds with ⟨hconditionCode, htoElse, hdropYes, hyesCode, htoEnd, hdropNo, hnoCode⟩
  refine (hcondition hconditionCode).bind ?_
  rintro v s' m₁ ⟨hpc, hdecided⟩
  rw [← hpc] at htoElse hdropYes hyesCode htoEnd hdropNo hnoCode
  subst hdrop
  have htarget : ((pc m₁ + Opcode.width b.jumpUnless : Nat) : Int)
      + (Code.size (Code.plain line b.drop ++ yesCode) + (Opcode.width b.jump : Int))
      = ((pc m₁ + Opcode.width b.jumpUnless + Code.size (Code.plain line b.drop)
        + Code.size yesCode + Opcode.width b.jump : Nat) : Int) := by
    rw [Code.size_append]
    omega
  cases v with
  | true =>
      -- The first statement, and a jump over the second one.
      rcases hbranches true s' m₁ _ _ hdecided htoElse htarget hdropYes with
        ⟨n, m₂, hmoves, hpc₂, hready⟩
      rw [if_pos rfl] at hpc₂
      have hyesCode' : c.Holds (pc m₂) yesCode := by rw [hpc₂]; exact hyesCode
      refine .after hmoves ((hyes s' m₂ hyesCode' hready).onward ?_)
      rintro _ s'' m₃ ⟨hpc₃, hbetween⟩
      have htoEnd' : c.Holds (pc m₃)
          (Code.onLine line [(b.jump, (Code.size (Code.plain line b.drop ++ noCode) : Int))]) := by
        rw [hpc₃, hpc₂]
        exact htoEnd
      rcases hjumps s'' m₃ _ _ hbetween htoEnd' (Int.natCast_add _ _).symm with
        ⟨m₄, hstep, hpc₄, hdone⟩
      refine ⟨1, m₄, .single hstep, ?_, hdone⟩
      simp only [hpc₄, hpc₃, hpc₂, hpc, Code.size_append, Code.size_onLine_cons,
        Code.size_onLine_nil]
      omega
  | false =>
      -- A jump to the second statement.
      rcases hbranches false s' m₁ _ _ hdecided htoElse htarget hdropNo with
        ⟨n, m₂, hmoves, hpc₂, hready⟩
      have hpc₂ : pc m₂ = pc m₁ + Opcode.width b.jumpUnless + Code.size (Code.plain line b.drop)
          + Code.size yesCode + Opcode.width b.jump + Code.size (Code.plain line b.drop) := hpc₂
      have hnoCode' : c.Holds (pc m₂) noCode := by rw [hpc₂]; exact hnoCode
      refine .after hmoves ((hno s' m₂ hnoCode' hready).mono ?_)
      rintro _ s'' m₃ ⟨hpc₃, hdone⟩
      refine ⟨?_, hdone⟩
      simp only [hpc₃, hpc₂, hpc, Code.size_append, Code.size_onLine_cons, Code.size_onLine_nil]
      omega

/-- A conditional without an alternative has one that does nothing. -/
theorem exec_ifThen (bound line : Nat) (condition : Expr) (yes : Stmt) (no : Option Stmt) :
    (Stmt.ifThen line condition yes no).exec bound = (do
      if ← Exec.holds condition then yes.exec bound
      else no.elim (pure ()) (Stmt.exec bound)) := by
  cases no with
  | none => rw [Stmt.exec]; rfl
  | some no => rw [Stmt.exec]; rfl

/-- Code for a loop follows the loop, for as many rounds as it is given. -/
theorem Follows.loop {bodyCode : Code ω} {inside start : Nat} {body : Exec Unit}
    {Ready Within Around : Session → σ → Prop} (hdrop : drop = Code.plain line b.drop)
    (hinside : inside = Code.size (drop ++ bodyCode) + Opcode.width b.loop)
    (hholds : c.Holds start
      [conditionCode, Code.onLine line [(b.jumpUnless, (inside : Int))], drop, bodyCode,
        Code.onLine line [(b.loop,
          -((Code.size conditionCode + Opcode.width b.jumpUnless + inside : Nat) : Int))],
        drop].flatten)
    (hbranches : Branches c b line Decided Within) (hjumps : Jumps c b.loop line Around Ready)
    (hcondition : ∀ s m, pc m = start → Ready s m →
      Follows c bound m (fun v => Past (Decided v) conditionCode m) (x s))
    (hbody : ∀ s m, c.Holds (pc m) bodyCode → Within s m →
      Follows c bound m (fun _ => Past Around bodyCode m) (body s))
    {rounds : Nat} (hrounds : rounds ≤ bound) (hpc : pc m = start) (hready : Ready s m) :
    Follows c rounds m
      (fun _ => Past Within
        [conditionCode, Code.onLine line [(b.jumpUnless, (inside : Int))], drop, bodyCode,
          Code.onLine line [(b.loop,
            -((Code.size conditionCode + Opcode.width b.jumpUnless + inside : Nat) : Int))],
          drop].flatten m)
      (Exec.repeatWhile x body rounds s) := by
  simp only [List.flatten_cons, List.flatten_nil, List.append_nil] at hholds ⊢
  simp only [Chunk.holds_append, Code.size_onLine_cons, Code.size_onLine_nil, Nat.add_zero] at hholds
  rcases hholds with ⟨-, htoEnd, hdropBody, hbodyCode, hagain, hdropEnd⟩
  subst hdrop
  -- The machine may run out of rounds at the head of the loop only; each round takes a step.
  induction rounds generalizing s m with
  | zero => exact ⟨0, m, .refl m, Nat.le_refl 0⟩
  | succ rounds ih =>
      refine ((hcondition s m hpc hready).weaken hrounds).bind ?_
      rintro v s' m₁ ⟨hpc₁, hdecided⟩
      rw [hpc] at hpc₁
      rw [← hpc₁] at htoEnd hdropBody hbodyCode hagain hdropEnd
      have htarget : ((pc m₁ + Opcode.width b.jumpUnless : Nat) : Int) + inside
          = ((pc m₁ + Opcode.width b.jumpUnless + Code.size (Code.plain line b.drop)
            + Code.size bodyCode + Opcode.width b.loop : Nat) : Int) := by
        rw [hinside, Code.size_append]
        omega
      cases v with
      | true =>
          -- Another round, and back to the head of the loop.
          rcases hbranches true s' m₁ _ _ hdecided htoEnd htarget hdropBody with
            ⟨n, m₂, hmoves, hpc₂, hwithin⟩
          rw [if_pos rfl] at hpc₂
          have hbodyCode' : c.Holds (pc m₂) bodyCode := by rw [hpc₂]; exact hbodyCode
          refine .after_round hmoves ?_
          refine ((hbody s' m₂ hbodyCode' hwithin).weaken (by omega)).bind ?_
          rintro _ s'' m₃ ⟨hpc₃, haround⟩
          have hagain' : c.Holds (pc m₃) (Code.onLine line [(b.loop,
              -((Code.size conditionCode + Opcode.width b.jumpUnless + inside : Nat) : Int))]) := by
            rw [hpc₃, hpc₂]
            exact hagain
          have hback : ((pc m₃ + Opcode.width b.loop : Nat) : Int)
              + -((Code.size conditionCode + Opcode.width b.jumpUnless + inside : Nat) : Int)
              = (start : Int) := by
            rw [hpc₃, hpc₂, hpc₁, hinside, Code.size_append]
            omega
          rcases hjumps s'' m₃ _ _ haround hagain' hback with ⟨m₄, hstep, hpc₄, hready'⟩
          refine .after_step hstep ((ih (by omega) hpc₄ hready').mono ?_)
          rintro _ s₅ m₅ ⟨hpc₅, h⟩
          exact ⟨by rw [hpc₅, hpc₄, hpc], h⟩
      | false =>
          -- The loop is over.
          rcases hbranches false s' m₁ _ _ hdecided htoEnd htarget hdropEnd with
            ⟨n, m₂, hmoves, hpc₂, hwithin⟩
          have hpc₂ : pc m₂ = pc m₁ + Opcode.width b.jumpUnless
              + Code.size (Code.plain line b.drop) + Code.size bodyCode + Opcode.width b.loop
              + Code.size (Code.plain line b.drop) := hpc₂
          refine .after hmoves (.here ⟨?_, hwithin⟩)
          simp only [hpc₂, hpc₁, hpc, Code.size_append, Code.size_onLine_cons, Code.size_onLine_nil]
          omega

/-! ## Whole chunks -/

/-- A generated chunk holds the code of its program from the beginning, and the end of the program
behind it. -/
theorem Backend.Lawful.holds_of_program {Inv : Pool → ν → Prop} (hb : b.Lawful Inv) {p : Program}
    (h : b.program p = .ok c) :
    ∃ code t, b.EmitsAll b.start p code t ∧ t.pool.Extends c.pool ∧
      c.Holds 0 (code ++ Code.plain t.line [b.stop]) := by
  rcases hb.program_eq_ok h with ⟨code, t, hemits, hadds, rfl⟩
  refine ⟨code, t, hemits, .refl _, Chunk.holds_ofCode hb.legible ?_⟩
  intro i hi
  -- an instruction of the program, or the terminator
  rcases List.mem_append.mp hi with hi | hi
  · exact (hadds.inner i hi).valid
  · rcases List.mem_singleton.mp hi with rfl
    exact .of_fits (by rw [hb.stop]; rfl) (by simp [hb.stop])

end Scriptlet
