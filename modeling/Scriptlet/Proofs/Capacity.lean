import Scriptlet.Proofs.ConstantPool
import Scriptlet.Proofs.Demands
import Scriptlet.Proofs.WordPreservation

/-! # Running out of room

An operand of one byte tells 256 constants or local variables apart, and an operand of two bytes 65536
slots. A backend that runs out of them fails. The pool machine fails only when it has to: the pool holds
256 constants, or 256 local variables are live. The word machine fails one slot early, for the last slot
that its operands could name is handed out to no variable.

The walk is followed as the demands that it makes (`Backend.meetAll`). A demand is refused at a limit, and
the invariants of the backends keep the state from getting past it. What the state counts is tied to the
demands in front of the refused one: the live variables are those of the blocks that are open there
(`Blocks.after`), and the slots are those that have been handed out (`WordOp.HandsOut`).

## Main statement

* `capacity_errors_when_full`: what is used up where a machine runs out of room.
-/

namespace Scriptlet

/-! ## Blocks behind demands -/

namespace Blocks

/-- The blocks that are open behind a demand. -/
def follow (blocks : Blocks) : Demand → Blocks
  | .enter => [] :: blocks
  | .leave => blocks.tail
  | .declare name => blocks.declare [name]
  | .literal _ | .fetch _ | .store _ => blocks

/-- The blocks that are open behind demands. -/
def after (blocks : Blocks) : List (Nat × Demand) → Blocks
  | [] => blocks
  | (_, d) :: rest => (blocks.follow d).after rest

end Blocks

namespace Tallied

variable {blocks : Blocks} {drawn : List (Mention × Nat)} {s t : GenState PoolVars}
  {code : Code PoolOp}

/-- Leaving a block closes the innermost one, and keeps the constants. -/
theorem leave_tail {pool : Pool} {vars : PoolVars} (h : Tallied blocks drawn pool vars) :
    Tallied blocks.tail drawn pool (PoolOp.backend.leave vars).2 := by
  cases blocks with
  | cons here outer => exact h.leave
  | nil =>
    -- Outside of all blocks there is nothing to forget.
    have hdepth : vars.depth = 0 := h.depth_eq
    have hlocals : vars.locals = [] := h.locals_eq
    exact { h with
      depth_eq := by simp [PoolOp.backend, PoolVars.leave, hdepth]
      locals_eq := by simp [PoolOp.backend, PoolVars.leave, hlocals, Blocks.locals] }

/-- A demand that is met keeps the account of blocks and constants. -/
theorem meet {d : Demand} (hs : Tallied blocks drawn s.pool s.vars)
    (h : PoolOp.backend.meet d s = .ok (code, t)) :
    ∃ drawn', Tallied (blocks.follow d) drawn' t.pool t.vars := by
  cases d with
  | literal value =>
    obtain ⟨more, -, -, ht⟩ := PoolOp.draws_literal blocks h drawn hs
    exact ⟨_, ht⟩
  | fetch name =>
    obtain ⟨more, -, -, ht⟩ :=
      PoolOp.draws_access blocks .getLocal (m := .fetch name) rfl rfl rfl h drawn hs
    exact ⟨_, ht⟩
  | store name =>
    obtain ⟨more, -, -, ht⟩ :=
      PoolOp.draws_access blocks .setLocal (m := .store name) rfl rfl rfl h drawn hs
    exact ⟨_, ht⟩
  | declare name =>
    obtain ⟨more, -, -, ht⟩ := PoolOp.draws_declare blocks h drawn hs
    exact ⟨_, ht⟩
  | enter =>
    cases h
    exact ⟨_, hs.enter⟩
  | leave =>
    cases h
    exact ⟨_, hs.leave_tail⟩

/-- So do any demands that are met one after the other. -/
theorem meetAll {ds : List (Nat × Demand)} (hs : Tallied blocks drawn s.pool s.vars)
    (h : PoolOp.backend.meetAll ds s = .ok (code, t)) :
    ∃ drawn', Tallied (blocks.after ds) drawn' t.pool t.vars := by
  induction ds generalizing blocks drawn s code with
  | nil =>
    cases h
    exact ⟨drawn, hs⟩
  | cons first rest ih =>
    obtain ⟨_, u, _, hfirst, hrest, -⟩ := Backend.meetAll_cons_eq_ok.mp h
    obtain ⟨_, hu⟩ := Tallied.meet (s := s.onLine first.1) hs hfirst
    exact ih hu hrest

end Tallied

/-! ## Full pools and full blocks -/

namespace PoolOp

open PoolVars

variable {p : Program} {error : GenError} {front : List (Nat × Demand)} {code : Code PoolOp}
  {s : GenState PoolVars}

/-- A demand is refused at a limit: that of the pool, or that of local variables. -/
theorem meet_eq_error {d : Demand} (h : backend.meet d s = .error error) :
    (Pool.limit ≤ s.pool.size ∧ error = .tooManyConstants Pool.limit s.line) ∨
      (localLimit ≤ s.vars.locals.length ∧ error = .tooManyLocals s.line) := by
  cases d with
  | literal value => exact .inl (literal_eq_error h)
  | fetch name => exact .inl (access_eq_error h)
  | store name => exact .inl (access_eq_error h)
  | declare name => exact (declare_eq_error h).symm
  | enter => cases h
  | leave => cases h

/-- Where the demands of a program stop, the limit of the error has been reached and not exceeded. -/
theorem full_of_stopsAt (h : backend.StopsAt p error front code s) :
    (s.pool.size = Pool.limit ∧ ∃ line, error = .tooManyConstants Pool.limit line) ∨
      (s.vars.locals.length = localLimit ∧ ∃ line, error = .tooManyLocals line) := by
  obtain ⟨line, d, back, -, hfront, hd⟩ := h
  -- The invariant bounds the state from above, and the refusal from below.
  have hs : InOrder s.pool s.vars := backend_lawful.meetAll hfront backend_lawful.fresh
  rcases meet_eq_error hd with ⟨hsize, rfl⟩ | ⟨hlength, rfl⟩
  · exact .inl ⟨Nat.le_antisymm hs.pool_le hsize, line, rfl⟩
  · exact .inr ⟨Nat.le_antisymm hs.locals_le hlength, line, rfl⟩

/-- The live variables are those of the blocks that are open. -/
theorem locals_of_stopsAt (h : backend.StopsAt p error front code s) :
    s.vars.locals.map Local.name = (Blocks.after [] front).flatten := by
  obtain ⟨line, d, back, -, hfront, -⟩ := h
  obtain ⟨drawn, hs⟩ := Tallied.start.meetAll hfront
  rw [hs.locals_eq, Blocks.map_name_locals]

end PoolOp

/-! ## Slots that are handed out -/

namespace WordOp

open WordVars

variable {p : Program} {error : GenError} {front : List (Nat × Demand)} {code : Code WordOp}
  {s t : GenState WordVars}

/-- Does code assign to a slot, as it does where a declaration has been given this slot? -/
def HandsOut (code : Code WordOp) (slot : Nat) : Prop :=
  ∃ i ∈ code, i.op = setVar ∧ i.arg = slot

/-- A slot is handed out by code put together, if it is by one of the pieces. -/
theorem handsOut_append {code code' : Code WordOp} {slot : Nat} :
    HandsOut (code ++ code') slot ↔ HandsOut code slot ∨ HandsOut code' slot := by
  simp only [HandsOut, List.mem_append, or_and_right, exists_or]

/-- The slots below the next free one are those that were in use and those that are handed out. -/
theorem lt_next_of_meet {d : Demand} (h : backend.meet d s = .ok (code, t)) (hs : s.vars.InOrder)
    (slot : Nat) : slot < t.vars.next ↔ slot < s.vars.next ∨ HandsOut code slot := by
  cases d with
  | literal value =>
    obtain ⟨word, -, rfl, rfl⟩ := literal_ok h
    simp [HandsOut, Code.onLine]
  | fetch name =>
    obtain ⟨known, -, rfl, rfl⟩ := fetch_ok h
    simp [HandsOut, Code.onLine]
  | store name =>
    obtain ⟨known, hknown, rfl, rfl⟩ := store_ok h
    -- An assignment names a slot too, but one that is in use already.
    have hlt := hs.find?_lt hknown
    simp [HandsOut, Code.onLine]
    omega
  | declare name =>
    obtain ⟨n, hn, rfl⟩ := declare_ok h
    rcases allocate_ok hn with ⟨hknown, rfl⟩ | ⟨-, -, rfl, rfl⟩
    · -- A second declaration in the same scope gets the slot of the first one.
      have hlt := hs.slot_lt (List.mem_cons_self ..) hknown
      simp [HandsOut, Code.onLine]
      omega
    · simp [HandsOut, Code.onLine]
      omega
  | enter =>
    cases h
    simp [HandsOut, backend]
  | leave =>
    cases h
    simp [HandsOut, backend]

/-- The slots below the next free one are those that were handed out, before or in between. -/
theorem lt_next_of_meetAll {ds : List (Nat × Demand)} (h : backend.meetAll ds s = .ok (code, t))
    (hs : s.vars.InOrder) (slot : Nat) :
    slot < t.vars.next ↔ slot < s.vars.next ∨ HandsOut code slot := by
  induction ds generalizing s code with
  | nil =>
    cases h
    simp [HandsOut]
  | cons first rest ih =>
    obtain ⟨_, u, _, hfirst, hrest, rfl⟩ := Backend.meetAll_cons_eq_ok.mp h
    have hu := backend_lawful.meet hfirst hs
    rw [ih hrest hu, lt_next_of_meet hfirst hs, handsOut_append, or_assoc]
    rfl

/-- Where the demands of a program stop for want of slots, all slots but the last one have been handed
out. -/
theorem handsOut_of_stopsAt {line : Nat}
    (h : backend.StopsAt p (.tooManyVariables line) front code s) (slot : Nat) :
    HandsOut code slot ↔ slot < slotLimit := by
  obtain ⟨line', d, back, -, hfront, hd⟩ := h
  have hs : s.vars.InOrder := backend_lawful.meetAll hfront backend_lawful.fresh
  have hnext : slotLimit ≤ s.vars.next := by
    -- Only a declaration is refused for want of slots.
    cases d with
    | literal value => cases (literal_eq_error hd).2
    | fetch name => cases (fetch_eq_error hd).2
    | store name => cases (store_eq_error hd).2
    | declare name => exact (declare_eq_error hd).1
    | enter => cases hd
    | leave => cases hd
  have hslots := lt_next_of_meetAll hfront backend_lawful.fresh slot
  have hzero : ¬ slot < backend.start.vars.next := Nat.not_lt_zero slot
  rw [Nat.le_antisymm hs.next_le hnext] at hslots
  simpa [hzero] using hslots.symm

/-! ## More variables than slots -/

open Gen

/-- A name that is new in its scope takes a new slot, if there is one. -/
theorem declare_new (name : String) (hnew : s.vars.scopes.inner[name]? = none) :
    backend.declare name s
      = if s.vars.next < slotLimit then
          .ok (Code.onLine s.line [(setVar, (s.vars.next : Int))],
            s.withVars { scopes := s.vars.scopes.define name s.vars.next, next := s.vars.next + 1 })
        else .error (.tooManyVariables s.line) := by
  have hallocate : allocate name s
      = if s.vars.next < slotLimit then
          .ok (s.vars.next, s.withVars
            { scopes := s.vars.scopes.define name s.vars.next, next := s.vars.next + 1 })
        else .error (.tooManyVariables s.line) := by
    have hvars {β : Type} (f : WordVars → Gen WordVars β) : (vars >>= f) s = f s.vars s := rfl
    rw [allocate, hvars]
    simp only [hnew]
    split <;> rfl
  -- whether there is room is decided once, by the next free slot
  by_cases hroom : s.vars.next < slotLimit
  · rw [if_pos hroom] at hallocate ⊢
    exact bind_eq_of_ok hallocate
  · rw [if_neg hroom] at hallocate ⊢
    exact bind_eq_of_error hallocate

/-- A declaration in a block of its own takes a new slot, if there is one. -/
theorem stmt_block_var (s : GenState WordVars) (name : String) :
    backend.stmt (.block 1 [.var 1 name none]) s
      = if s.vars.next < slotLimit then
          .ok (Code.onLine 1 [(pushWord, 0), (setVar, (s.vars.next : Int))],
            { s with line := 1, vars := { s.vars with next := s.vars.next + 1 } })
        else .error (.tooManyVariables 1) := by
  have hline : Carries 1 := ⟨by decide, by decide⟩
  -- in a new block the name is new, whatever it means outside
  have hdeclare := declare_new name (s := (s.withVars (backend.enter s.vars)).onLine 1)
    (by simp [backend, Scopes.enter])
  have hvar : backend.stmt (.var 1 name none) (s.withVars (backend.enter s.vars))
      = (do return Code.onLine 1 [backend.unset] ++ (← backend.declare name) :
          Gen WordVars (Code WordOp)) ((s.withVars (backend.enter s.vars)).onLine 1) :=
    bind_eq_of_ok (setLine_eq_ok hline _)
  by_cases hroom : s.vars.next < slotLimit
  · rw [if_pos hroom]
    rw [if_pos (by exact hroom)] at hdeclare
    rw [bind_eq_of_ok hdeclare] at hvar
    have hbody : backend.stmts [.var 1 name none] [] (s.withVars (backend.enter s.vars)) = _ :=
      bind_eq_of_ok hvar
    refine vars_bind_eq_ok.mpr (setVars_bind_eq_ok.mpr (bind_eq_ok.mpr ⟨_, _, hbody, ?_⟩))
    exact setLine_bind_eq_ok.mpr ⟨hline, rfl⟩
  · rw [if_neg hroom]
    rw [if_neg (by exact hroom)] at hdeclare
    rw [bind_eq_of_error hdeclare] at hvar
    have hbody : backend.stmts [.var 1 name none] [] (s.withVars (backend.enter s.vars)) = _ :=
      bind_eq_of_error hvar
    exact vars_bind_eq_error.mpr (setVars_bind_eq_error.mpr (bind_eq_of_error hbody))

/-- Such blocks run out of slots, if there are more blocks than slots. -/
theorem stmts_blocks (name : String) {n : Nat} {done : List (Code WordOp)} {s : GenState WordVars}
    (hs : s.vars.next ≤ slotLimit) (hn : slotLimit < s.vars.next + n) :
    backend.stmts (List.replicate n (.block 1 [.var 1 name none])) done s
      = .error (.tooManyVariables 1) := by
  -- on the number of blocks: each takes one more slot, until there is none
  induction n generalizing done s with
  | zero => omega
  | succ n ih =>
    have hfirst := stmt_block_var s name
    rw [List.replicate_succ, Backend.stmts]
    by_cases hroom : s.vars.next < slotLimit
    · rw [if_pos hroom] at hfirst
      rw [bind_eq_of_ok hfirst]
      apply ih
      · exact hroom
      · show slotLimit < s.vars.next + 1 + n
        omega
    · rw [if_neg hroom] at hfirst
      exact bind_eq_of_error hfirst

end WordOp

/-! ## Capacity errors -/

/-- Capacity errors mean that the room is used up, but for one slot of the word machine. Where the pool
machine has too many constants, its pool holds 256 of them; where it has too many local variables, 256
variables of open blocks are live. Where the word machine has too many variables, every slot below 65535
has been handed out, and the slot 65535 has not. -/
theorem capacity_errors_when_full (p : Program) :
    (∀ limit line, Target.pool.generate p = .error (.tooManyConstants limit line) →
      limit = 256 ∧ ∃ front code s,
        PoolOp.backend.StopsAt p (.tooManyConstants limit line) front code s ∧ s.pool.size = 256) ∧
    (∀ line, Target.pool.generate p = .error (.tooManyLocals line) →
      ∃ front code s, PoolOp.backend.StopsAt p (.tooManyLocals line) front code s ∧
        s.vars.locals.map Local.name = (Blocks.after [] front).flatten ∧
        (Blocks.after [] front).flatten.length = 256) ∧
    (∀ line, Target.word.generate p = .error (.tooManyVariables line) →
      ∃ front code s, WordOp.backend.StopsAt p (.tooManyVariables line) front code s ∧
        ∀ slot, WordOp.HandsOut code slot ↔ slot < 65535) := by
  refine ⟨?_, ?_, ?_⟩
  · intro limit line h
    -- a failed walk has met all demands in front of the one that it failed at
    obtain ⟨front, code, s, hstops⟩ := PoolOp.backend_lawful.stopsAt_of_program h rfl
    rcases PoolOp.full_of_stopsAt hstops with ⟨hsize, line', herror⟩ | ⟨-, line', herror⟩
    · cases herror
      exact ⟨rfl, front, code, s, hstops, hsize⟩
    · cases herror
  · intro line h
    obtain ⟨front, code, s, hstops⟩ := PoolOp.backend_lawful.stopsAt_of_program h rfl
    have hlocals := PoolOp.locals_of_stopsAt hstops
    rcases PoolOp.full_of_stopsAt hstops with ⟨-, line', herror⟩ | ⟨hlength, -⟩
    · cases herror
    · refine ⟨front, code, s, hstops, hlocals, ?_⟩
      rw [← hlocals, List.length_map]
      exact hlength
  · intro line h
    obtain ⟨front, code, s, hstops⟩ := WordOp.backend_lawful.stopsAt_of_program h rfl
    exact ⟨front, code, s, hstops, WordOp.handsOut_of_stopsAt hstops⟩

/-- All three errors occur: for the 257th literal, for the 257th variable of a block, and for the
variable of the 65536th block. -/
theorem capacity_errors_when_full_reached :
    (∃ front code s,
      PoolOp.backend.StopsAt (List.replicate 257 (.print 1 (.literal 1 (.int 0))))
        (.tooManyConstants 256 1) front code s ∧ s.pool.size = 256) ∧
    (∃ front code s,
      PoolOp.backend.StopsAt [.block 1 (List.replicate 257 (.var 1 "a" none))]
        (.tooManyLocals 1) front code s ∧
        s.vars.locals.map Local.name = (Blocks.after [] front).flatten ∧
        (Blocks.after [] front).flatten.length = 256) ∧
    (∃ front code s,
      WordOp.backend.StopsAt (List.replicate 65536 (.block 1 [.var 1 "a" none]))
        (.tooManyVariables 1) front code s ∧
        ∀ slot, WordOp.HandsOut code slot ↔ slot < 65535) := by
  refine ⟨?_, ?_, ?_⟩
  · exact ((capacity_errors_when_full _).1 256 1 (by decide +kernel)).2
  · exact (capacity_errors_when_full _).2.1 1 (by decide +kernel)
  · apply (capacity_errors_when_full _).2.2 1
    exact WordOp.backend.assemble_eq_error (WordOp.stmts_blocks "a" (Nat.zero_le _) (by decide))

/-- The word machine has no slot for the variable of the 65536th block, although its operands could
name one more: the slot 65535 has not been handed out. -/
theorem last_slot_never_handed_out :
    Target.word.generate (List.replicate 65536 (.block 1 [.var 1 "a" none]))
        = .error (.tooManyVariables 1) ∧
      (Opcode.layout WordOp.setVar).fits 65535 = true ∧
      ¬ ∃ front code s,
        WordOp.backend.StopsAt (List.replicate 65536 (.block 1 [.var 1 "a" none]))
          (.tooManyVariables 1) front code s ∧ ∀ slot < 65536, WordOp.HandsOut code slot := by
  refine ⟨?_, by decide, ?_⟩
  · exact WordOp.backend.assemble_eq_error (WordOp.stmts_blocks "a" (Nat.zero_le _) (by decide))
  · rintro ⟨front, code, s, hstops, hall⟩
    have hlast := (WordOp.handsOut_of_stopsAt hstops 65535).mp (hall 65535 (by decide))
    exact absurd hlast (Nat.lt_irrefl _)

end Scriptlet
