import Scriptlet.Machine.Pool
import Scriptlet.Machine.Word
import Scriptlet.Proofs.Backends

/-! # Running code

What a machine does over many steps, and what it needs to know of a chunk: which code the chunk holds at
an offset. For both machines, one lemma for each kind of instruction says what a step in front of it
does, so that the simulations never open a machine.
-/

namespace Scriptlet

namespace Machine

variable {σ : Type} {step : σ → Progress σ} {s t u : σ} {m n : Nat}

/-- A machine goes from one state to another one in a number of steps. -/
inductive Moves (step : σ → Progress σ) : Nat → σ → σ → Prop
  | refl (s : σ) : Moves step 0 s s
  | head {s t u : σ} {n : Nat} : step s = .next t → Moves step n t u → Moves step (n + 1) s u

namespace Moves

theorem single (h : step s = .next t) : Moves step 1 s t :=
  .head h (.refl t)

/-- Two runs, one behind the other, take the steps of both. -/
theorem trans (h : Moves step m s t) (h' : Moves step n t u) : Moves step (m + n) s u := by
  induction h with
  | refl s =>
      rw [Nat.zero_add]
      exact h'
  | head hstep _ ih =>
      rw [Nat.add_right_comm]
      exact .head hstep (ih h')

/-- A run goes on where the machine has got to. -/
theorem run_add (h : Moves step n s t) (k : Nat) : run step (n + k) s = run step k t := by
  induction h with
  | refl s => rw [Nat.zero_add]
  | head hstep _ ih =>
      rw [Nat.add_right_comm, run, hstep]
      exact ih

/-- A run that comes to a stop ends there. -/
theorem run_stopped (h : Moves step n s t) (ht : step t = .stopped) :
    run step (n + 1) s = (.stopped, t) := by
  rw [h.run_add, run, ht]

/-- A run that comes to a failure ends there. -/
theorem run_failed (h : Moves step n s t) (ht : step t = .failed) :
    run step (n + 1) s = (.failed, t) := by
  rw [h.run_add, run, ht]

/-- As long as the machine moves, it neither stops nor fails. -/
theorem run_running (h : Moves step n s t) {k : Nat} (hk : k ≤ n) :
    (run step k s).1 = .running := by
  induction h generalizing k with
  | refl s =>
      rw [Nat.le_zero.mp hk]
      rfl
  | head hstep _ ih =>
      cases k with
      | zero => rfl
      | succ k =>
          rw [run, hstep]
          exact ih (Nat.le_of_succ_le_succ hk)

end Moves

/-- A run moves to the state at its end, and stops only where the machine stops. -/
theorem moves_of_run {e : Ending} (h : run step n s = (e, t)) :
    ∃ k, Moves step k s t ∧ (e = .stopped → step t = .stopped) := by
  -- on the fuel, of which each step takes one
  induction n generalizing s with
  | zero =>
      cases h
      exact ⟨0, .refl t, nofun⟩
  | succ n ih =>
      unfold run at h
      split at h
      · next s' hstep =>
        rcases ih h with ⟨k, hmoves, hstopped⟩
        exact ⟨k + 1, .head hstep hmoves, hstopped⟩
      · next hstep =>
        cases h
        exact ⟨0, .refl t, fun _ => hstep⟩
      · cases h
        exact ⟨0, .refl t, nofun⟩

end Machine

/-! ## Code in a chunk -/

namespace Chunk

variable {ω : Type} [Opcode ω]

/-- Does the chunk hold some code at an offset, so that each instruction is read at its place? -/
def Holds (c : Chunk) : Nat → Code ω → Prop
  | _, [] => True
  | offset, i :: rest =>
      c.decodeAt offset = .ok (i.record c.pool offset) ∧ c.Holds (offset + i.width) rest

/-- A chunk that holds two pieces of code holds the second one behind the first. -/
theorem holds_append {c : Chunk} {offset : Nat} {front back : Code ω} :
    c.Holds offset (front ++ back) ↔ c.Holds offset front ∧ c.Holds (offset + front.size) back := by
  induction front generalizing offset with
  | nil => simp [Holds]
  | cons i front ih => simp [Holds, ih, Nat.add_assoc, and_assoc]

/-- A chunk holds the code it was made from. -/
theorem holds_ofCode {pool : Pool} {code : Code ω} (hω : Opcode.Legible ω)
    (h : ∀ i ∈ code, i.Valid pool) : (ofCode pool code).Holds 0 code := by
  -- code that was written is held at each offset within it, so the code in front is kept along
  suffices hholds : ∀ rest front : Code ω, code = front ++ rest →
      (ofCode pool code).Holds front.size rest from
    hholds code [] rfl
  intro rest
  induction rest with
  | nil =>
      intro front _
      trivial
  | cons i rest ih =>
      intro front hcode
      constructor
      · rw [hcode]
        exact decodeAt_ofCode hω (h i (by simp [hcode]))
      · have := ih (front ++ [i]) (by simp [hcode])
        simpa using this

end Chunk

/-! ## Steps of the pool machine -/

namespace PoolMachine

open PoolOp

variable {c : Chunk} {m : PoolMachine} {arg : Int} {line : Nat} {v : Value} {below : List Value}

/-- The next instruction of the machine. -/
def Next (c : Chunk) (m : PoolMachine) (op : PoolOp) (arg : Int) (line : Nat) : Prop :=
  c.decodeAt m.pc = .ok (Instr.record c.pool m.pc { op, arg, line })

/-- The machine behind its next instruction, with another stack. -/
def behind (m : PoolMachine) (op : PoolOp) (stack : List Value) : PoolMachine :=
  { m with pc := m.pc + Opcode.width op, stack }

@[simp]
theorem behind_pc (m : PoolMachine) (op : PoolOp) (stack : List Value) :
    (m.behind op stack).pc = m.pc + Opcode.width op :=
  rfl

@[simp]
theorem behind_stack (m : PoolMachine) (op : PoolOp) (stack : List Value) :
    (m.behind op stack).stack = stack :=
  rfl

/-- Where the chunk holds an instruction, it is the next one. -/
theorem next_of_holds {op : PoolOp} {rest : List (PoolOp × Int)}
    (h : c.Holds m.pc (Code.onLine line ((op, arg) :: rest))) :
    Next c m op arg line ∧ c.Holds (m.pc + Opcode.width op) (Code.onLine line rest) :=
  h

theorem step_eq {op : PoolOp} (h : Next c m op arg line) :
    step c m = m.perform (Instr.record c.pool m.pc { op, arg, line }) := by
  rw [step, h]

/-- A constant is pushed from the pool. -/
theorem step_constant (h : Next c m constant arg line) (hv : c.pool[arg.toNat]? = some v) :
    step c m = .next (m.behind constant (v :: m.stack)) := by
  have hconstant : (Instr.record c.pool m.pc { op := constant, arg, line }).constant = some v := hv
  rw [step_eq h]
  unfold perform
  simp only [hconstant]
  rfl

/-- The values that have instructions of their own are pushed by them. -/
theorem step_literal {op : PoolOp} (h : Next c m op arg line) (hop : ofLiteral? v = some op) :
    step c m = .next (m.behind op (v :: m.stack)) := by
  rw [step_eq h]
  unfold ofLiteral? at hop
  split at hop <;> cases hop <;> rfl

theorem step_pop (h : Next c m pop arg line) (hstack : m.stack = v :: below) :
    step c m = .next (m.behind pop below) := by
  rw [step_eq h]
  cases m
  cases hstack
  rfl

/-- A row of pops takes as many values from the stack. -/
theorem moves_pops {values : List Value} (hstack : m.stack = values ++ below)
    (h : c.Holds m.pc (Code.plain line (List.replicate values.length pop))) :
    Machine.Moves (step c) values.length m
      { m with
        pc := m.pc + Code.size (Code.plain line (List.replicate values.length pop))
        stack := below } := by
  -- on the values of the block, of which the last one declared is on top
  induction values generalizing m with
  | nil =>
      rw [List.nil_append] at hstack
      subst hstack
      exact .refl m
  | cons v values ih =>
      rcases next_of_holds h with ⟨hnext, hrest⟩
      have hmoves := ih (m := m.behind pop (values ++ below)) rfl hrest
      refine .head (step_pop hnext hstack) ?_
      simpa [behind, Code.plain, List.replicate_succ, Nat.add_assoc] using hmoves

theorem step_getLocal (h : Next c m getLocal arg line) (hslot : slot? arg.toNat m.stack = some v) :
    step c m = .next (m.behind getLocal (v :: m.stack)) := by
  rw [step_eq h]
  unfold perform
  simp only [Record.op, Instr.record, hslot]
  rfl

/-- The value stays on the stack, and is also put into the slot. -/
theorem step_setLocal {stack : List Value} (h : Next c m setLocal arg line)
    (hstack : m.stack = v :: below) (hset : setSlot? arg.toNat v m.stack = some stack) :
    step c m = .next (m.behind setLocal stack) := by
  rw [hstack] at hset
  rw [step_eq h]
  unfold perform
  simp only [Record.op, Instr.record, hstack, hset]
  rfl

section Globals

variable {name : String} (hname : c.pool[arg.toNat]? = some (Value.string name))

include hname

/-- A global variable that is not there fails. -/
theorem step_getGlobal (h : Next c m getGlobal arg line) :
    step c m =
      match m.globals[name]? with
      | some v => .next (m.behind getGlobal (v :: m.stack))
      | none => .failed := by
  have hconstant : (Instr.record c.pool m.pc { op := getGlobal, arg, line }).constant
      = some (.string name) := hname
  rw [step_eq h]
  unfold perform
  simp only [hconstant]
  rfl

/-- The value is taken from the stack, whether the variable was there or not. -/
theorem step_defineGlobal (h : Next c m defineGlobal arg line) (hstack : m.stack = v :: below) :
    step c m
      = .next { m.behind defineGlobal below with globals := m.globals.insert name v } := by
  have hconstant : (Instr.record c.pool m.pc { op := defineGlobal, arg, line }).constant
      = some (.string name) := hname
  rw [step_eq h]
  unfold perform
  simp only [hconstant, hstack]
  rfl

/-- A global variable is assigned only if it is there. -/
theorem step_setGlobal (h : Next c m setGlobal arg line) (hstack : m.stack = v :: below) :
    step c m =
      if m.globals.contains name then
        .next { m.behind setGlobal (v :: below) with globals := m.globals.insert name v }
      else .failed := by
  have hconstant : (Instr.record c.pool m.pc { op := setGlobal, arg, line }).constant
      = some (.string name) := hname
  rw [step_eq h]
  unfold perform
  simp only [hconstant, hstack]
  rfl

end Globals

/-- An operation takes both operands, or fails as it does. -/
theorem step_binary {op : BinaryOp} {o : PoolOp} {left right : Value} (h : Next c m o arg line)
    (hop : ofBinary op = [o]) (hstack : m.stack = right :: left :: below) :
    step c m =
      match op.apply line left right with
      | .ok v => .next (m.behind o (v :: below))
      | .error _ => .failed := by
  have hbinary : step c m = m.binary (Instr.record c.pool m.pc { op := o, arg, line }) op := by
    rw [step_eq h]
    cases op <;> cases hop <;> rfl
  rw [hbinary, PoolMachine.binary, hstack]
  rfl

/-- An operation takes its operand, or fails as it does. -/
theorem step_unary {op : UnaryOp} (h : Next c m (backend.unary op) arg line)
    (hstack : m.stack = v :: below) :
    step c m =
      match op.apply line v with
      | .ok w => .next (m.behind (backend.unary op) (w :: below))
      | .error _ => .failed := by
  have hunary : step c m
      = m.unary (Instr.record c.pool m.pc { op := backend.unary op, arg, line }) op := by
    rw [step_eq h]
    cases op <;> rfl
  rw [hunary, PoolMachine.unary, hstack]
  rfl

/-- A value is printed with a line end. -/
theorem step_print (h : Next c m print arg line) (hstack : m.stack = v :: below) :
    step c m
      = .next { m.behind print below with output := m.output ++ (v.text ++ "\n").toUTF8 } := by
  rw [step_eq h]
  cases m
  cases hstack
  rfl

/-- A jump goes where its argument says, counted from the instruction behind it. -/
theorem step_jump {op : PoolOp} {target : Nat} (h : Next c m op arg line)
    (hop : op = PoolOp.jump ∨ op = PoolOp.loop)
    (htarget : ((m.pc + Opcode.width op : Nat) : Int) + arg = target) :
    step c m = .next { m with pc := target } := by
  have hjump : step c m = m.jump (Instr.record c.pool m.pc { op, arg, line }) := by
    rw [step_eq h]
    rcases hop with rfl | rfl <;> rfl
  have hisJump : (Opcode.layout op).isJump = true := by
    rcases hop with rfl | rfl <;> rfl
  have htarget? : (Instr.record c.pool m.pc { op, arg, line }).target? = some target :=
    Instr.target?_record hisJump htarget
  rw [hjump, PoolMachine.jump, htarget?]

/-- The condition stays on the stack, jump or no jump. -/
theorem step_jumpIfFalse {target : Nat} (h : Next c m jumpIfFalse arg line)
    (hstack : m.stack = v :: below)
    (htarget : ((m.pc + Opcode.width jumpIfFalse : Nat) : Int) + arg = target) :
    step c m =
      if v.truthy then .next (m.behind jumpIfFalse (v :: below))
      else .next { m with pc := target } := by
  have htarget? : (Instr.record c.pool m.pc { op := jumpIfFalse, arg, line }).target?
      = some target := Instr.target?_record rfl htarget
  rw [step_eq h]
  unfold perform PoolMachine.jump
  simp only [hstack, htarget?]
  rfl

theorem step_return (h : Next c m return_ arg line) : step c m = .stopped := by
  rw [step_eq h]
  rfl

end PoolMachine

/-! ## Steps of the word machine -/

namespace WordMachine

open WordOp

variable {c : Chunk} {m : WordMachine} {arg : Int} {line : Nat} {w : Int64} {below : List Int64}

/-- The next instruction of the machine. -/
def Next (c : Chunk) (m : WordMachine) (op : WordOp) (arg : Int) (line : Nat) : Prop :=
  c.decodeAt m.pc = .ok (Instr.record c.pool m.pc { op, arg, line })

/-- The machine behind its next instruction, with another stack. -/
def behind (m : WordMachine) (op : WordOp) (stack : List Int64) : WordMachine :=
  { m with pc := m.pc + Opcode.width op, stack }

@[simp]
theorem behind_pc (m : WordMachine) (op : WordOp) (stack : List Int64) :
    (m.behind op stack).pc = m.pc + Opcode.width op :=
  rfl

@[simp]
theorem behind_stack (m : WordMachine) (op : WordOp) (stack : List Int64) :
    (m.behind op stack).stack = stack :=
  rfl

/-- Where the chunk holds an instruction, it is the next one. -/
theorem next_of_holds {op : WordOp} {rest : List (WordOp × Int)}
    (h : c.Holds m.pc (Code.onLine line ((op, arg) :: rest))) :
    Next c m op arg line ∧ c.Holds (m.pc + Opcode.width op) (Code.onLine line rest) :=
  h

theorem step_eq {op : WordOp} (h : Next c m op arg line) :
    step c m = m.perform (Instr.record c.pool m.pc { op, arg, line }) := by
  rw [step, h]

/-- A word comes from the operand, and not from a pool. -/
theorem step_pushWord (h : Next c m pushWord arg line) :
    step c m = .next (m.behind pushWord (Int64.ofInt arg :: m.stack)) := by
  rw [step_eq h]
  rfl

/-- A slot that was never set fails. -/
theorem step_getVar (h : Next c m getVar arg line) (hslot : m.slots[arg]? = some w) :
    step c m = .next (m.behind getVar (w :: m.stack)) := by
  rw [step_eq h]
  unfold perform
  simp only [Record.op, Instr.record, hslot]
  rfl

/-- The word is taken from the stack. -/
theorem step_setVar (h : Next c m setVar arg line) (hstack : m.stack = w :: below) :
    step c m = .next { m.behind setVar below with slots := m.slots.insert arg w } := by
  rw [step_eq h]
  cases m
  cases hstack
  rfl

/-- An operation gives a word, or the machine fails. -/
theorem step_binary {op : BinaryOp} {left right : Int64} (h : Next c m (ofBinary op) arg line)
    (hstack : m.stack = right :: left :: below) :
    step c m =
      match (op.apply line (.int left) (.int right)).toOption.bind ofValue? with
      | some w => .next (m.behind (ofBinary op) (w :: below))
      | none => .failed := by
  have hbinary : step c m
      = m.binary (Instr.record c.pool m.pc { op := ofBinary op, arg, line }) op := by
    rw [step_eq h]
    cases op <;> rfl
  rw [hbinary, WordMachine.binary, hstack]
  rfl

/-- A word is negated as an integer, and overflows as one. -/
theorem step_negate (h : Next c m negate arg line) (hstack : m.stack = w :: below) :
    step c m =
      match (UnaryOp.negate.apply line (.int w)).toOption.bind ofValue? with
      | some w => .next (m.behind negate (w :: below))
      | none => .failed := by
  rw [step_eq h]
  cases m
  cases hstack
  rfl

/-- Zero is false, and all other words are true. -/
theorem step_not (h : Next c m not arg line) (hstack : m.stack = w :: below) :
    step c m = .next (m.behind not (ofBool (w == 0) :: below)) := by
  rw [step_eq h]
  cases m
  cases hstack
  rfl

theorem step_pop (h : Next c m pop arg line) (hstack : m.stack = w :: below) :
    step c m = .next (m.behind pop below) := by
  rw [step_eq h]
  cases m
  cases hstack
  rfl

/-- The word on top is copied. -/
theorem step_dup (h : Next c m dup arg line) (hstack : m.stack = w :: below) :
    step c m = .next (m.behind dup (w :: w :: below)) := by
  rw [step_eq h]
  cases m
  cases hstack
  rfl

theorem step_print (h : Next c m print arg line) (hstack : m.stack = w :: below) :
    step c m = .next
      { m.behind print below with
        output := m.output ++ ((Value.int w).text ++ "\n").toUTF8 } := by
  rw [step_eq h]
  cases m
  cases hstack
  rfl

theorem step_jump {target : Nat} (h : Next c m WordOp.jump arg line)
    (htarget : ((m.pc + Opcode.width WordOp.jump : Nat) : Int) + arg = target) :
    step c m = .next { m with pc := target } := by
  have hjump : step c m = m.jump (Instr.record c.pool m.pc { op := .jump, arg, line }) := step_eq h
  have htarget? : (Instr.record c.pool m.pc { op := WordOp.jump, arg, line }).target?
      = some target := Instr.target?_record rfl htarget
  rw [hjump, WordMachine.jump, htarget?]

/-- A conditional jump takes the word on top of the stack, whether it jumps or not. -/
theorem step_jumpUnless {target : Nat} (h : Next c m jumpUnless arg line)
    (hstack : m.stack = w :: below)
    (htarget : ((m.pc + Opcode.width jumpUnless : Nat) : Int) + arg = target) :
    step c m =
      if w == 0 then .next { m with pc := target, stack := below }
      else .next (m.behind jumpUnless below) := by
  have htarget? : (Instr.record c.pool m.pc { op := jumpUnless, arg, line }).target?
      = some target := Instr.target?_record rfl htarget
  rw [step_eq h]
  unfold perform WordMachine.jump
  simp only [hstack, htarget?]
  rfl

/-- The condition is taken from the stack, jump or no jump. -/
theorem step_jumpIf {target : Nat} (h : Next c m jumpIf arg line) (hstack : m.stack = w :: below)
    (htarget : ((m.pc + Opcode.width jumpIf : Nat) : Int) + arg = target) :
    step c m =
      if w == 0 then .next (m.behind jumpIf below)
      else .next { m with pc := target, stack := below } := by
  have htarget? : (Instr.record c.pool m.pc { op := jumpIf, arg, line }).target?
      = some target := Instr.target?_record rfl htarget
  rw [step_eq h]
  unfold perform WordMachine.jump
  simp only [hstack, htarget?]
  rfl

theorem step_stopScript (h : Next c m stopScript arg line) : step c m = .stopped := by
  rw [step_eq h]
  rfl

end WordMachine

end Scriptlet
