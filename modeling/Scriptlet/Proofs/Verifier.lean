import Scriptlet.Proofs.Following
import Scriptlet.Proofs.Heights

/-! # Running verified code

The verifier reads code without running it. It is sound: in a run of a chunk that has heights, the
stack is as high at every instruction as the heights say. So no instruction ever misses an operand, no
slot of the stack is used that is not there, no jump leads out of the code, and a run that stops leaves
as many values as the verifier has promised.

The tables of effects are compared with the machines once, one instruction at a time (`Governs`). What
holds along a run follows from that, for any machine.
-/

namespace Scriptlet

open Machine CodeMachine

variable {σ ω ν : Type} [Opcode ω]

/-! ## One step -/

namespace Effects

/-- A step over an instruction, from `x` values on the stack to `y` values at the offset `pc`: the
operands are there, the stack gets the right height, and the step goes where the instruction leads. -/
structure Allows (fx : Effects ω) (r : Record ω) (x pc y : Nat) : Prop where
  operands : fx.pops r.op ≤ x
  height : y = fx.after r.op x
  edge : fx.continues r.op = true ∧ pc = r.next ∨
    (Opcode.layout r.op).isJump = true ∧ r.target? = some pc

variable [CodeMachine σ]

/-- What may come of an instruction with `x` values on the stack. Any instruction may fail, but only the
end of the program stops. -/
def Permits (fx : Effects ω) (stop : ω) (depth : σ → Nat) (r : Record ω) (x : Nat) :
    Progress σ → Prop
  | .next m => fx.Allows r x (pc m) (depth m)
  | .stopped => r.op = stop
  | .failed => True

/-- The machine keeps to the table of effects, where `depth` is the height of its stack. -/
def Governs (fx : Effects ω) (stop : ω) (depth : σ → Nat) : Prop :=
  ∀ (c : Chunk) (m : σ) (r : Record ω), c.decodeAt (pc m) = .ok r →
    fx.Permits stop depth r (depth m) (step c m)

/-- The machine goes on behind the instruction with a stack of this height, or fails. -/
inductive GoesOn (depth : σ → Nat) (r : Record ω) (height : Nat) : Progress σ → Prop
  | next {m : σ} (hpc : pc m = r.next) (hdepth : depth m = height) : GoesOn depth r height (.next m)
  | failed : GoesOn depth r height .failed

variable {fx : Effects ω} {stop : ω} {depth : σ → Nat} {r : Record ω} {x : Nat}

/-- An instruction that goes on with the right height is permitted. -/
theorem GoesOn.permits {height : Nat} {q : Progress σ} (h : GoesOn depth r height q)
    (hcontinues : fx.continues r.op = true) (hoperands : fx.pops r.op ≤ x)
    (hheight : height = fx.after r.op x) : fx.Permits stop depth r x q := by
  cases h with
  | next hpc hdepth => exact ⟨hoperands, hdepth.trans hheight, .inl ⟨hcontinues, hpc⟩⟩
  | failed => trivial

/-- A step to the next instruction. -/
theorem permits_next {m : σ} (hpc : pc m = r.next) (hcontinues : fx.continues r.op = true)
    (hoperands : fx.pops r.op ≤ x) (hheight : depth m = fx.after r.op x) :
    fx.Permits stop depth r x (.next m) :=
  (GoesOn.next hpc rfl).permits hcontinues hoperands hheight

/-- A step to the target of a jump, which fails if there is none. -/
theorem permits_jump {land : Nat → σ} (hpc : ∀ target, pc (land target) = target)
    (hjump : (Opcode.layout r.op).isJump = true) (hoperands : fx.pops r.op ≤ x)
    (hheight : ∀ target, depth (land target) = fx.after r.op x) :
    fx.Permits stop depth r x
      (match r.target? with
      | some target => .next (land target)
      | none => .failed) := by
  cases htarget : r.target? with
  | none => trivial
  | some target =>
    have hedge : r.target? = some (pc (land target)) := by rw [hpc, htarget]
    exact ⟨hoperands, hheight target, .inr ⟨hjump, hedge⟩⟩

/-- An operation takes some operands, and leaves one result on what is below them. -/
theorem GoesOn.operation {operands below : Nat} {q : Progress σ} (h : GoesOn depth r (below + 1) q)
    (hcontinues : fx.continues r.op = true) (hpops : fx.pops r.op = operands)
    (hpushes : fx.pushes r.op = 1) : fx.Permits stop depth r (below + operands) q := by
  apply h.permits hcontinues
  · rw [hpops]
    exact Nat.le_add_left ..
  · rw [Effects.after, hpops, hpushes, Nat.add_sub_cancel]

end Effects

namespace PoolMachine

open PoolOp Effects

/-- The number of values on the stack. -/
def depth (m : PoolMachine) : Nat :=
  m.stack.length

variable {m : PoolMachine} {r : Record PoolOp}

/-- An operation fails, or its result is put on what is left of the stack. -/
theorem goesOn_apply (m : PoolMachine) (r : Record PoolOp) (result : Except RuntimeError Value)
    (below : List Value) :
    GoesOn depth r (below.length + 1)
      (match result with
      | .ok v => m.goOn r (v :: below)
      | .error _ => .failed) := by
  cases result with
  | ok v => exact .next rfl rfl
  | error e => exact .failed

/-- An operation on two values leaves one, if it goes on at all. -/
theorem binary_permits (op : BinaryOp) (hcontinues : effects.continues r.op = true)
    (hpops : effects.pops r.op = 2) (hpushes : effects.pushes r.op = 1) :
    effects.Permits return_ depth r m.stack.length (m.binary r op) := by
  unfold PoolMachine.binary
  rcases m.stack with _ | ⟨right, _ | ⟨left, below⟩⟩
  · trivial
  · trivial
  · exact (m.goesOn_apply r _ below).operation hcontinues hpops hpushes

/-- An operation on a value leaves one, if it goes on at all. -/
theorem unary_permits (op : UnaryOp) (hcontinues : effects.continues r.op = true)
    (hpops : effects.pops r.op = 1) (hpushes : effects.pushes r.op = 1) :
    effects.Permits return_ depth r m.stack.length (m.unary r op) := by
  unfold PoolMachine.unary
  rcases m.stack with _ | ⟨operand, below⟩
  · trivial
  · exact (m.goesOn_apply r _ below).operation hcontinues hpops hpushes

/-- Setting a slot keeps the height of the stack. -/
theorem length_setSlot? {slot : Nat} {v : Value} {stack stack' : List Value}
    (h : setSlot? slot v stack = some stack') : stack'.length = stack.length := by
  induction stack generalizing stack' with
  | nil => cases h
  | cons w below ih =>
      unfold setSlot? at h
      split at h
      · cases h
        rfl
      · rcases Option.map_eq_some_iff.mp h with ⟨below', hset, rfl⟩
        simp [ih hset]

/-- Each instruction of the pool machine does what the table of effects says. -/
theorem perform_permits (m : PoolMachine) (r : Record PoolOp) :
    effects.Permits return_ depth r m.depth (m.perform r) := by
  rcases m with ⟨pc, stack, globals, output⟩
  rcases r with ⟨offset, ⟨op, arg, line⟩, constant⟩
  -- an instruction that lacks an operand fails, which every effect permits; otherwise its height is
  -- computed
  cases op with
  | constant =>
      cases constant with
      | none => trivial
      | some v => exact permits_next rfl rfl (Nat.zero_le _) rfl
  | nil | true_ | false_ => exact permits_next rfl rfl (Nat.zero_le _) rfl
  | pop | print =>
      cases stack with
      | nil => trivial
      | cons v below => exact permits_next rfl rfl (Nat.le_add_left ..) rfl
  | getLocal =>
      unfold perform
      dsimp only [Record.op]
      split
      · exact permits_next rfl rfl (Nat.zero_le _) rfl
      · trivial
  | setLocal =>
      cases stack with
      | nil => trivial
      | cons v below =>
          unfold perform
          dsimp only [Record.op]
          split
          · next hset => exact permits_next rfl rfl (Nat.le_add_left ..) (length_setSlot? hset)
          · trivial
  | getGlobal =>
      -- only a string names a global
      rcases constant with _ | ⟨_ | _ | _ | name | _⟩
      case some.string =>
        unfold perform
        dsimp only [Record.op]
        split
        · exact permits_next rfl rfl (Nat.zero_le _) rfl
        · trivial
      all_goals trivial
  | defineGlobal =>
      rcases constant with _ | ⟨_ | _ | _ | name | _⟩
      case some.string =>
        cases stack with
        | nil => trivial
        | cons v below => exact permits_next rfl rfl (Nat.le_add_left ..) rfl
      all_goals trivial
  | setGlobal =>
      rcases constant with _ | ⟨_ | _ | _ | name | _⟩
      case some.string =>
        cases stack with
        | nil => trivial
        | cons v below =>
            unfold perform
            dsimp only [Record.op]
            split
            · exact permits_next rfl rfl (Nat.le_add_left ..) rfl
            · trivial
      all_goals trivial
  | equal => exact binary_permits .equal rfl rfl rfl
  | greater => exact binary_permits .greater rfl rfl rfl
  | less => exact binary_permits .less rfl rfl rfl
  | add => exact binary_permits .add rfl rfl rfl
  | subtract => exact binary_permits .subtract rfl rfl rfl
  | multiply => exact binary_permits .multiply rfl rfl rfl
  | divide => exact binary_permits .divide rfl rfl rfl
  | not => exact unary_permits .not rfl rfl rfl
  | negate => exact unary_permits .negate rfl rfl rfl
  | jump | loop => exact permits_jump (fun _ => rfl) rfl (Nat.zero_le _) (fun _ => rfl)
  | jumpIfFalse =>
      cases stack with
      | nil => trivial
      | cons v below =>
          unfold perform
          dsimp only [Record.op]
          split
          · exact permits_next rfl rfl (Nat.le_add_left ..) rfl
          · exact permits_jump (fun _ => rfl) rfl (Nat.le_add_left ..) (fun _ => rfl)
  | return_ => rfl

/-- The pool machine keeps to its table of effects. -/
theorem governed : effects.Governs return_ depth := by
  intro c m r hr
  have hstep : CodeMachine.step c m = m.perform r := by
    show PoolMachine.step c m = m.perform r
    unfold PoolMachine.step
    rw [show c.decodeAt m.pc = .ok r from hr]
  rw [hstep]
  exact m.perform_permits r

end PoolMachine

namespace WordMachine

open WordOp Effects

/-- The number of values on the stack. -/
def depth (m : WordMachine) : Nat :=
  m.stack.length

variable {m : WordMachine} {r : Record WordOp}

/-- A result that is no word fails, and any other one is put on what is left of the stack. -/
theorem goesOn_result (m : WordMachine) (r : Record WordOp) (below : List Int64)
    (v : Except RuntimeError Value) :
    GoesOn depth r (below.length + 1) (m.result r below v) := by
  unfold result
  split
  · exact .next rfl rfl
  · exact .failed

theorem binary_permits (op : BinaryOp) (hcontinues : effects.continues r.op = true)
    (hpops : effects.pops r.op = 2) (hpushes : effects.pushes r.op = 1) :
    effects.Permits stopScript depth r m.stack.length (m.binary r op) := by
  unfold WordMachine.binary
  rcases m.stack with _ | ⟨right, _ | ⟨left, below⟩⟩
  · trivial
  · trivial
  · exact (m.goesOn_result r below _).operation hcontinues hpops hpushes

/-- Each instruction of the word machine does what the table of effects says. -/
theorem perform_permits (m : WordMachine) (r : Record WordOp) :
    effects.Permits stopScript depth r m.depth (m.perform r) := by
  rcases m with ⟨pc, stack, slots, output⟩
  rcases r with ⟨offset, ⟨op, arg, line⟩, constant⟩
  cases op with
  | pushWord => exact permits_next rfl rfl (Nat.zero_le _) rfl
  | getVar =>
      unfold perform
      dsimp only [Record.op]
      split
      · exact permits_next rfl rfl (Nat.zero_le _) rfl
      · trivial
  | setVar | not | pop | dup | print =>
      cases stack with
      | nil => trivial
      | cons word below => exact permits_next rfl rfl (Nat.le_add_left ..) rfl
  | add => exact binary_permits .add rfl rfl rfl
  | sub => exact binary_permits .subtract rfl rfl rfl
  | mul => exact binary_permits .multiply rfl rfl rfl
  | div => exact binary_permits .divide rfl rfl rfl
  | eq => exact binary_permits .equal rfl rfl rfl
  | neq => exact binary_permits .notEqual rfl rfl rfl
  | gt => exact binary_permits .greater rfl rfl rfl
  | ge => exact binary_permits .greaterEqual rfl rfl rfl
  | lt => exact binary_permits .less rfl rfl rfl
  | le => exact binary_permits .lessEqual rfl rfl rfl
  | negate =>
      cases stack with
      | nil => trivial
      | cons word below => exact (goesOn_result _ _ below _).permits rfl (Nat.le_add_left ..) rfl
  | jump => exact permits_jump (fun _ => rfl) rfl (Nat.zero_le _) (fun _ => rfl)
  | jumpUnless =>
      cases stack with
      | nil => trivial
      | cons word below =>
          unfold perform
          dsimp only [Record.op]
          split
          · exact permits_jump (fun _ => rfl) rfl (Nat.le_add_left ..) (fun _ => rfl)
          · exact permits_next rfl rfl (Nat.le_add_left ..) rfl
  | jumpIf =>
      cases stack with
      | nil => trivial
      | cons word below =>
          unfold perform
          dsimp only [Record.op]
          split
          · exact permits_next rfl rfl (Nat.le_add_left ..) rfl
          · exact permits_jump (fun _ => rfl) rfl (Nat.le_add_left ..) (fun _ => rfl)
  | stopScript => rfl

/-- The word machine keeps to its table of effects. -/
theorem governed : effects.Governs stopScript depth := by
  intro c m r hr
  have hstep : CodeMachine.step c m = m.perform r := by
    show WordMachine.step c m = m.perform r
    unfold WordMachine.step
    rw [show c.decodeAt m.pc = .ok r from hr]
  rw [hstep]
  exact m.perform_permits r

end WordMachine

/-! ## Whole runs -/

/-- The machine is at one of the instructions, and its stack is as high as the heights say. -/
def AtHeight [CodeMachine σ] (records : List (Record ω)) (height : Nat → Nat) (depth : σ → Nat)
    (m : σ) : Prop :=
  (∃ r ∈ records, r.offset = pc m) ∧ depth m = height (pc m)

namespace Verified

variable [CodeMachine σ] {fx : Effects ω} {stop : ω} {final : Nat} {records : List (Record ω)}
  {height : Nat → Nat} {depth : σ → Nat} {c : Chunk} {m m' : σ}

/-- A step of a verified chunk goes from the height of one instruction to that of the next. -/
theorem atHeight_step (hv : Verified fx stop final records height) (hc : c.decode = .ok records)
    (hfx : fx.Governs stop depth) (hm : AtHeight records height depth m)
    (hstep : step c m = .next m') : AtHeight records height depth m' := by
  rcases hm with ⟨⟨r, hr, hpc⟩, hdepth⟩
  have hat := Chunk.decodeAt_of_mem_decode hc hr
  rw [hpc] at hat
  have hallows := hfx c m r hat
  rw [hstep] at hallows
  -- Along either edge, the verifier has checked the height that the step leaves.
  rcases hallows with ⟨-, hheight, ⟨hcontinues, hnext⟩ | ⟨hjump, htarget⟩⟩
  · rcases hv.continues r hr hcontinues with ⟨r', hr', hoffset, hheight'⟩
    have hpc' : r'.offset = pc m' := hoffset.trans hnext.symm
    rw [hpc', hpc, ← hdepth, ← hheight] at hheight'
    exact ⟨⟨r', hr', hpc'⟩, hheight'.symm⟩
  · rcases hv.jumps r hr hjump with ⟨r', hr', hoffset, hheight'⟩
    have hpc' : r'.offset = pc m' := Option.some.inj (hoffset.symm.trans htarget)
    rw [hpc', hpc, ← hdepth, ← hheight] at hheight'
    exact ⟨⟨r', hr', hpc'⟩, hheight'.symm⟩

/-- So the stack has the verified height all along a run. -/
theorem atHeight_moves (hv : Verified fx stop final records height) (hc : c.decode = .ok records)
    (hfx : fx.Governs stop depth) {n : Nat} (hmoves : Moves (step c) n m m')
    (hm : AtHeight records height depth m) : AtHeight records height depth m' := by
  induction hmoves with
  | refl => exact hm
  | head hstep _ ih => exact ih (hv.atHeight_step hc hfx hm hstep)

/-- Wherever a run of verified code has got to, the machine is at an instruction, and finds what the
instruction needs; and where the run has stopped, the stack has its final height. -/
theorem run_sound (hv : Verified fx stop final records height) (hc : c.decode = .ok records)
    (hfx : fx.Governs stop depth) {start : σ} (hpc : pc start = 0) (hdepth : depth start = 0)
    {steps : Nat} {e : Ending} (hrun : run (step c) steps start = (e, m)) :
    ∃ r : Record ω, c.decodeAt (pc m) = .ok r ∧ fx.pops r.op ≤ depth m ∧
      (Opcode.layout r.op = .byte → 0 ≤ r.instr.arg ∧ r.instr.arg < depth m) ∧
      (e = .stopped → depth m = final) := by
  rcases moves_of_run hrun with ⟨n, hmoves, hstopped⟩
  rcases Chunk.first_of_decode hc hv.ne_nil with ⟨first, hfirst, hoffset⟩
  have hstart : AtHeight records height depth start := by
    refine ⟨⟨first, hfirst, hoffset.trans hpc.symm⟩, ?_⟩
    rw [hdepth, hpc, hv.starts]
  rcases hv.atHeight_moves hc hfx hmoves hstart with ⟨⟨r, hr, hpc'⟩, hheight⟩
  have hat := Chunk.decodeAt_of_mem_decode hc hr
  rw [hpc'] at hat
  rw [hheight, ← hpc']
  refine ⟨r, by rw [hpc']; exact hat, hv.operands r hr, hv.slots r hr, ?_⟩
  intro he
  -- Only the end of the program stops, and its height has been checked.
  have hend := hfx c m r hat
  rw [hstopped he] at hend
  exact hv.ends r hr hend

end Verified

/-! ## Generated code -/

/-- A run of generated code on the pool machine is always at an instruction, with the operands and the
local variable of the instruction on the stack, and it stops with an empty stack. -/
theorem pool_run_in_bounds {p : Program} {c : Chunk} (hplaced : Stmt.allPlaced p = true)
    (hc : Target.pool.generate p = .ok c) {steps : Nat} {e : Ending} {m : PoolMachine}
    (hrun : PoolMachine.exec c steps = (e, m)) :
    ∃ r : Record PoolOp, c.decodeAt m.pc = .ok r ∧ PoolOp.effects.pops r.op ≤ m.stack.length ∧
      (Opcode.layout r.op = .byte → 0 ≤ r.instr.arg ∧ r.instr.arg < m.stack.length) ∧
      (e = .stopped → m.stack = []) := by
  rcases PoolOp.verified_of_program hplaced hc with ⟨records, height, hdecode, hv⟩
  rcases hv.run_sound hdecode PoolMachine.governed rfl rfl hrun with ⟨r, hr, hpops, hslot, hstop⟩
  exact ⟨r, hr, hpops, hslot, fun he => List.length_eq_zero_iff.mp (hstop he)⟩

/-- A run of generated code on the word machine is always at an instruction, with the operands of the
instruction on the stack, and it stops with an empty stack. -/
theorem word_run_in_bounds {p : Program} {c : Chunk} (hplaced : Stmt.allPlaced p = true)
    (hc : Target.word.generate p = .ok c) {steps : Nat} {e : Ending} {m : WordMachine}
    (hrun : WordMachine.exec c steps = (e, m)) :
    ∃ r : Record WordOp, c.decodeAt m.pc = .ok r ∧ WordOp.effects.pops r.op ≤ m.stack.length ∧
      (e = .stopped → m.stack = []) := by
  rcases WordOp.verified_of_program hplaced hc with ⟨records, height, hdecode, hv⟩
  rcases hv.run_sound hdecode WordMachine.governed rfl rfl hrun with ⟨r, hr, hpops, -, hstop⟩
  exact ⟨r, hr, hpops, fun he => List.length_eq_zero_iff.mp (hstop he)⟩

end Scriptlet
