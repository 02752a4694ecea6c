import Scriptlet.Gen.Generate
import Scriptlet.Proofs.Emission

/-! # What the backends promise

The walk over a program relies on its backend for single instructions and for variables. A backend is
lawful if the instructions it hands out can be written and read back, none of them ends a program, the
jumps are jumps and the rest is not, and what it remembers of variables stays in order. Both backends
are lawful, each with an invariant of its own on what it remembers.
-/

namespace Scriptlet

variable {ω ν : Type} [Opcode ω]

/-- Does one pool hold the constants of another one, and perhaps more behind them? -/
def Pool.Extends (pool larger : Pool) : Prop :=
  pool.toList <+: larger.toList

namespace Pool.Extends

variable {pool larger largest : Pool}

theorem refl (pool : Pool) : Extends pool pool :=
  List.prefix_rfl

theorem trans (h : Extends pool larger) (h' : Extends larger largest) : Extends pool largest :=
  List.IsPrefix.trans h h'

/-- Adding a constant keeps those that are there. -/
theorem push (pool : Pool) (v : Value) : Extends pool (Array.push pool v) := by
  unfold Extends
  simp

theorem size_le (h : Extends pool larger) : pool.size ≤ larger.size := by
  simpa using List.IsPrefix.length_le h

/-- A constant keeps its index in a larger pool. -/
theorem getElem? (h : Extends pool larger) {index : Nat} {v : Value} (hv : pool[index]? = some v) :
    larger[index]? = some v := by
  obtain ⟨rest, hrest⟩ := h
  rw [← Array.getElem?_toList] at hv ⊢
  obtain ⟨hindex, -⟩ := List.getElem?_eq_some_iff.mp hv
  rw [← hrest, List.getElem?_append_left hindex, hv]

end Pool.Extends

/-- Is it neither a jump nor the end of a program, and can it be read back? -/
structure Instr.Straight (stop : ω) (pool : Pool) (i : Instr ω) : Prop where
  valid : i.Valid pool
  continues : i.op ≠ stop
  no_jump : (Opcode.layout i.op).isJump = false

/-- Is it an error of the chunk? -/
def GenError.isChunk : GenError → Bool
  | chunk _ _ => true
  | _ => false

/-- Does a step of generation never fail with an error of the chunk? -/
def Gen.Refuses {α : Type} (m : Gen ν α) : Prop :=
  ∀ s e, m s = .error e → e.isChunk = false

namespace Backend

variable (b : Backend ω ν)

/-- A step of a backend keeps an invariant and the constants there are, and hands out straight code. -/
structure Yields (Inv : Pool → ν → Prop) (s : GenState ν) (code : Code ω) (t : GenState ν) :
    Prop where
  inv : Inv t.pool t.vars
  pool_extends : Pool.Extends s.pool t.pool
  straight : ∀ i ∈ code, i.Straight b.stop t.pool

/-- What the walk relies on. -/
structure Lawful (Inv : Pool → ν → Prop) : Prop where
  legible : Opcode.Legible ω
  fresh : Inv #[] b.fresh
  literal {v s code t} : b.literal v s = .ok (code, t) → Inv s.pool s.vars → b.Yields Inv s code t
  fetch {name s code t} : b.fetch name s = .ok (code, t) → Inv s.pool s.vars → b.Yields Inv s code t
  store {name s code t} : b.store name s = .ok (code, t) → Inv s.pool s.vars → b.Yields Inv s code t
  declare {name s code t} :
    b.declare name s = .ok (code, t) → Inv s.pool s.vars → b.Yields Inv s code t
  enter {pool v} : Inv pool v → Inv pool (b.enter v)
  leave {pool v} : Inv pool v → Inv pool (b.leave v).2
  unset (line : Nat) (pool : Pool) : ∀ i ∈ Code.onLine line [b.unset], i.Straight b.stop pool
  unary (op : UnaryOp) : Opcode.layout (b.unary op) = .none ∧ b.unary op ≠ b.stop
  binary (op : BinaryOp) : ∀ o ∈ b.binary op, Opcode.layout o = .none ∧ o ≠ b.stop
  plain : ∀ o ∈ b.print :: b.pop :: (b.keep ++ b.drop), Opcode.layout o = .none ∧ o ≠ b.stop
  jumps : ∀ o ∈ [b.jump, b.jumpUnless, b.jumpIf.2, b.loop],
    (Opcode.layout o).isJump = true ∧ o ≠ b.stop
  /-- What leads up to a jump on a true condition is at most one jump over that jump. -/
  lead : b.jumpIf.1 = [] ∨
    ∃ op, b.jumpIf.1 = [(op, (Opcode.width b.jumpIf.2 : Int))] ∧ (Opcode.layout op).isJump = true ∧
      op ≠ b.stop ∧ (Opcode.layout op).fits (Opcode.width b.jumpIf.2) = true
  stop : Opcode.layout b.stop = .none
  literal_refuses (v : Value) : (b.literal v).Refuses
  fetch_refuses (name : String) : (b.fetch name).Refuses
  store_refuses (name : String) : (b.store name).Refuses
  declare_refuses (name : String) : (b.declare name).Refuses

end Backend

/-- An instruction with an operand that fits is valid, if it names no constant. -/
theorem Instr.Valid.of_fits {pool : Pool} {op : ω} {arg : Int} {line : Nat}
    (hfits : (Opcode.layout op).fits arg = true) (hlayout : Opcode.layout op ≠ .constant) :
    Instr.Valid pool { op, arg, line } :=
  ⟨hfits, Int.natCast_nonneg line, fun h => absurd h hlayout⟩

/-- An instruction with the index of a constant is valid beside a pool that is not too large. -/
theorem Instr.Valid.of_index {pool : Pool} {op : ω} {index line : Nat} (hindex : index < pool.size)
    (hpool : pool.size ≤ Pool.limit) (hlayout : Opcode.layout op = .constant) :
    Instr.Valid pool { op, arg := (index : Int), line } := by
  refine ⟨?_, Int.natCast_nonneg line, fun _ => hindex⟩
  have hlimit : Pool.limit = 256 := rfl
  simp only [hlayout, Layout.fits, decide_eq_true_eq]
  omega

namespace Gen

variable {α β : Type}

/-- Steps in sequence never fail with an error of the chunk, if none of them does. -/
theorem Refuses.bind {m : Gen ν α} {f : α → Gen ν β} (hm : m.Refuses)
    (hf : ∀ a, (f a).Refuses) : (m >>= f).Refuses := by
  intro s e h
  rcases hrun : m s with e' | ⟨a, t⟩ <;> simp only [Bind.bind, StateT.bind, Except.bind, hrun] at h
  · cases h
    exact hm s e hrun
  · exact hf a t e h

theorem Refuses.pure (a : α) : (pure a : Gen ν α).Refuses := by
  intro s e h
  cases h

theorem vars_refuses : (vars : Gen ν ν).Refuses := by
  intro s e h
  cases h

theorem setVars_refuses (v : ν) : (setVars v : Gen ν Unit).Refuses := by
  intro s e h
  cases h

omit [Opcode ω] in
theorem instrs_refuses (ops : List (ω × Int)) : (instrs ops : Gen ν (Code ω)).Refuses := by
  intro s e h
  cases h

/-- A failure at the current line is no error of the chunk, if it is none at any line. -/
theorem failHere_refuses {error : Nat → GenError} (herror : ∀ line, (error line).isChunk = false) :
    (failHere error : Gen ν α).Refuses := by
  intro s e h
  cases h
  exact herror s.line

theorem throw_refuses {error : GenError} (herror : error.isChunk = false) :
    (throw error : Gen ν α).Refuses := by
  intro s e h
  cases h
  exact herror

/-- A line that no code can carry is refused by name. -/
theorem setLine_refuses (line : Nat) : (setLine line : Gen ν Unit).Refuses := by
  unfold setLine
  split
  · refine .bind (throw_refuses rfl) fun _ => ?_
    intro s e h
    cases h
  · intro s e h
    cases h

/-- A jump that does not fit its operand is refused before it is written. -/
theorem jumpBy_refuses (op : ω) (displacement : Int) :
    (jumpBy op displacement : Gen ν (Code ω)).Refuses := by
  unfold jumpBy
  dsimp only
  split
  · exact instrs_refuses _
  · exact failHere_refuses fun _ => rfl

/-- A constant gets the next index, unless the pool is full. -/
theorem addConstant_eq {v : Value} {s : GenState ν} :
    addConstant v s =
      if s.pool.size < Pool.limit then .ok (s.pool.size, { s with pool := s.pool.push v })
      else .error (.tooManyConstants Pool.limit s.line) := by
  have hget : ∀ f : GenState ν → Gen ν Nat, (get >>= f) s = f s s := fun _ => rfl
  rw [addConstant, hget]
  by_cases h : s.pool.size < Pool.limit
  · rw [if_pos h, Pool.add?, if_pos h]
    rfl
  · rw [if_neg h, Pool.add?, if_neg h]
    rfl

/-- A full pool is found out before the chunk is asked for more room. -/
theorem addConstant_refuses (v : Value) : (addConstant v : Gen ν Nat).Refuses := by
  intro s e h
  rw [addConstant_eq] at h
  split at h <;> cases h
  rfl

end Gen

/-! ## The pool machine -/

namespace PoolVars

open Gen

/-- The pool is not too large, the names have their constants, and there are not too many locals. -/
structure InOrder (pool : Pool) (v : PoolVars) : Prop where
  pool_le : pool.size ≤ Pool.limit
  locals_le : v.locals.length ≤ localLimit
  names_get {name index} : v.names[name]? = some index → pool[index]? = some (Value.string name)

/-- The slot of a local variable is below the number of local variables. -/
theorem slotOf?_lt {name : String} {locals : List Local} {slot : Nat}
    (h : slotOf? name locals = some slot) : slot < locals.length := by
  -- on the variables, of which the last one declared has the highest slot
  induction locals with
  | nil => cases h
  | cons l below ih =>
      by_cases hl : l.name = name
      · rw [slotOf?, if_pos hl] at h
        cases h
        simp
      · rw [slotOf?, if_neg hl] at h
        have := ih h
        simp only [List.length_cons]
        omega

/-- A larger pool keeps the variables in order, as long as it is not too large. -/
theorem InOrder.extend {pool larger : Pool} {v : PoolVars} (h : InOrder pool v)
    (hextends : pool.Extends larger) (hsize : larger.size ≤ Pool.limit) : InOrder larger v :=
  ⟨hsize, h.locals_le, fun hname => hextends.getElem? (h.names_get hname)⟩

/-- After `s`, the constant of a name has an index in the state `t`, where nothing but constants was
added. -/
structure Named (s : GenState PoolVars) (name : String) (index : Nat) (t : GenState PoolVars) :
    Prop where
  inOrder : InOrder t.pool t.vars
  pool_extends : s.pool.Extends t.pool
  constant : t.pool[index]? = some (Value.string name)
  line_eq : t.line = s.line
  locals_eq : t.vars.locals = s.vars.locals
  depth_eq : t.vars.depth = s.vars.depth

/-- A name has a constant already, or a new one is added for it. -/
theorem nameConstant_cases {name : String} {s t : GenState PoolVars} {index : Nat}
    (h : nameConstant name s = .ok (index, t)) :
    (s.vars.names[name]? = some index ∧ t = s) ∨
      (s.vars.names[name]? = none ∧ s.pool.size < Pool.limit ∧ index = s.pool.size ∧
        t = { s with
          pool := s.pool.push (.string name)
          vars := { s.vars with names := s.vars.names.insert name s.pool.size } }) := by
  have h := vars_bind_eq_ok.mp h
  cases hname : s.vars.names[name]? with
  | some known =>
      simp only [hname] at h
      cases pure_eq_ok.mp h
      exact .inl ⟨rfl, rfl⟩
  -- a new name takes the next constant, if there is room for one
  | none =>
      simp only [hname] at h
      obtain ⟨_, _, hadd, h⟩ := bind_eq_ok.mp h
      have h := vars_bind_eq_ok.mp h
      have h := setVars_bind_eq_ok.mp h
      cases pure_eq_ok.mp h
      rw [addConstant_eq] at hadd
      split at hadd
      · rename_i hroom
        cases hadd
        exact .inr ⟨rfl, hroom, rfl, rfl⟩
      · cases hadd

/-- In a state that is in order, the index of a name's constant leads back to the name. -/
theorem nameConstant_ok {name : String} {s t : GenState PoolVars} {index : Nat}
    (h : nameConstant name s = .ok (index, t)) (hs : InOrder s.pool s.vars) :
    Named s name index t := by
  rcases nameConstant_cases h with ⟨hname, rfl⟩ | ⟨hname, hroom, rfl, rfl⟩
  · exact ⟨hs, .refl _, hs.names_get hname, rfl, rfl, rfl⟩
  · have hextends := Pool.Extends.push s.pool (.string name)
    have hsize : (Array.push s.pool (.string name)).size ≤ Pool.limit := by
      rw [Array.size_push]
      omega
    have hconstant : (Array.push s.pool (.string name))[Array.size s.pool]?
        = some (Value.string name) := by
      simp
    refine ⟨⟨hsize, hs.locals_le, ?_⟩, hextends, hconstant, rfl, rfl, rfl⟩
    intro other index hother
    have hother : (s.vars.names.insert name s.pool.size)[other]? = some index := hother
    -- the table holds the new name, and the old ones with indices that the larger pool keeps
    rw [Std.TreeMap.getElem?_insert] at hother
    split at hother
    · rename_i hname
      cases hother
      rw [← Std.LawfulEqCmp.compare_eq_iff_eq.mp hname]
      exact hconstant
    · exact hextends.getElem? (hs.names_get hother)

theorem nameConstant_refuses (name : String) : (nameConstant name).Refuses := by
  refine Refuses.bind vars_refuses fun v => ?_
  cases v.names[name]? with
  | some index => exact .pure index
  | none =>
      refine Refuses.bind (addConstant_refuses _) fun index => ?_
      exact Refuses.bind vars_refuses fun v => Refuses.bind (setVars_refuses _) fun _ => .pure index

end PoolVars

namespace PoolOp

open Gen PoolVars

/-- An access to a variable is one instruction: with the slot of a local, or with the constant of a
global's name. -/
theorem access_cases {onLocal onGlobal : PoolOp} {name : String} {s t : GenState PoolVars}
    {code : Code PoolOp} (h : access onLocal onGlobal name s = .ok (code, t)) :
    (∃ slot : Nat, slotOf? name s.vars.locals = some slot ∧
        code = Code.onLine s.line [(onLocal, (slot : Int))] ∧ t = s) ∨
      (slotOf? name s.vars.locals = none ∧
        ∃ index : Nat, nameConstant name s = .ok (index, t) ∧
          code = Code.onLine t.line [(onGlobal, (index : Int))]) := by
  have h := vars_bind_eq_ok.mp h
  cases hslot : slotOf? name s.vars.locals with
  | some slot =>
      simp only [hslot] at h
      cases instrs_eq_ok.mp h
      exact .inl ⟨slot, rfl, rfl, rfl⟩
  | none =>
      simp only [hslot] at h
      obtain ⟨index, u, hindex, h⟩ := bind_eq_ok.mp h
      cases instrs_eq_ok.mp h
      exact .inr ⟨rfl, index, hindex, rfl⟩

/-- In a state that is in order, the constant of a global's name is that name. -/
theorem access_ok {onLocal onGlobal : PoolOp} {name : String} {s t : GenState PoolVars}
    {code : Code PoolOp} (h : access onLocal onGlobal name s = .ok (code, t))
    (hs : InOrder s.pool s.vars) :
    (∃ slot : Nat, slotOf? name s.vars.locals = some slot ∧
        code = Code.onLine s.line [(onLocal, (slot : Int))] ∧ t = s) ∨
      (slotOf? name s.vars.locals = none ∧
        ∃ index : Nat, Named s name index t ∧
          code = Code.onLine s.line [(onGlobal, (index : Int))]) := by
  rcases access_cases h with hlocal | ⟨hslot, index, hindex, rfl⟩
  · exact .inl hlocal
  · have hnamed := nameConstant_ok hindex hs
    exact .inr ⟨hslot, index, hnamed, by rw [hnamed.line_eq]⟩

/-- A declaration in a block leaves its value where it is; outside of all blocks it defines a
global. -/
theorem declare_cases {name : String} {s t : GenState PoolVars} {code : Code PoolOp}
    (h : backend.declare name s = .ok (code, t)) :
    (0 < s.vars.depth ∧ s.vars.locals.length < localLimit ∧ code = [] ∧
        t = s.withVars
          { s.vars with locals := { name, depth := s.vars.depth } :: s.vars.locals }) ∨
      (s.vars.depth = 0 ∧
        ∃ index : Nat, nameConstant name s = .ok (index, t) ∧
          code = Code.onLine t.line [(defineGlobal, (index : Int))]) := by
  have h := vars_bind_eq_ok.mp h
  -- in a block the declared variable is local, outside of all blocks it is global
  by_cases hdepth : 0 < s.vars.depth
  · rw [if_pos hdepth] at h
    obtain ⟨_, u, hlocal, h⟩ := bind_eq_ok.mp h
    cases pure_eq_ok.mp h
    have hlocal := vars_bind_eq_ok.mp hlocal
    by_cases hroom : s.vars.locals.length < localLimit
    · rw [if_pos hroom] at hlocal
      cases hlocal
      exact .inl ⟨hdepth, hroom, rfl, rfl⟩
    · rw [if_neg hroom] at hlocal
      cases hlocal
  · rw [if_neg hdepth] at h
    obtain ⟨index, u, hindex, h⟩ := bind_eq_ok.mp h
    cases instrs_eq_ok.mp h
    exact .inr ⟨by omega, index, hindex, rfl⟩

/-- In a state that is in order, a global is defined through the constant of its name. -/
theorem declare_ok {name : String} {s t : GenState PoolVars} {code : Code PoolOp}
    (h : backend.declare name s = .ok (code, t)) (hs : InOrder s.pool s.vars) :
    (0 < s.vars.depth ∧ s.vars.locals.length < localLimit ∧ code = [] ∧
        t = s.withVars
          { s.vars with locals := { name, depth := s.vars.depth } :: s.vars.locals }) ∨
      (s.vars.depth = 0 ∧
        ∃ index : Nat, Named s name index t ∧
          code = Code.onLine s.line [(defineGlobal, (index : Int))]) := by
  rcases declare_cases h with hlocal | ⟨hdepth, index, hindex, rfl⟩
  · exact .inl hlocal
  · have hnamed := nameConstant_ok hindex hs
    exact .inr ⟨hdepth, index, hnamed, by rw [hnamed.line_eq]⟩

/-- The instruction that pushes a literal without a constant. -/
def ofLiteral? : Value → Option PoolOp
  | .bool true => some true_
  | .bool false => some false_
  | .nil => some nil
  | _ => none

/-- A literal is one instruction: of its own, or with a constant that is added for it. -/
theorem literal_ok {v : Value} {s t : GenState PoolVars} {code : Code PoolOp}
    (h : backend.literal v s = .ok (code, t)) :
    (∃ op, ofLiteral? v = some op ∧ code = Code.plain s.line [op] ∧ t = s) ∨
      (ofLiteral? v = none ∧ s.pool.size < Pool.limit ∧
        code = Code.onLine s.line [(constant, (s.pool.size : Int))] ∧
        t = { s with pool := s.pool.push v }) := by
  -- three kinds of literals have constants, and all are added in the same way
  have hadd {v : Value}
      (h : (addConstant v >>= fun index => instrs [(constant, (index : Int))] :
        Gen PoolVars (Code PoolOp)) s = .ok (code, t)) :
      s.pool.size < Pool.limit ∧ code = Code.onLine s.line [(constant, (s.pool.size : Int))] ∧
        t = { s with pool := s.pool.push v } := by
    obtain ⟨index, u, hindex, h⟩ := bind_eq_ok.mp h
    cases instrs_eq_ok.mp h
    rw [addConstant_eq] at hindex
    split at hindex
    · rename_i hroom
      cases hindex
      exact ⟨hroom, rfl, rfl⟩
    · cases hindex
  cases v with
  | bool b =>
      cases b <;> cases instrs_eq_ok.mp h <;> exact .inl ⟨_, rfl, rfl, rfl⟩
  | nil =>
      cases instrs_eq_ok.mp h
      exact .inl ⟨_, rfl, rfl, rfl⟩
  | int _ | double _ | string _ => exact .inr ⟨rfl, hadd h⟩

/-- One instruction that can be read back, and that is neither a jump nor the end, is straight code.
-/
theorem yields_onLine {s t : GenState PoolVars} {line : Nat} {op : PoolOp} {arg : Int}
    (hinv : InOrder t.pool t.vars) (hextends : s.pool.Extends t.pool)
    (hvalid : Instr.Valid t.pool { op, arg, line : Instr PoolOp }) (hstop : op ≠ return_)
    (hjump : (Opcode.layout op).isJump = false) :
    backend.Yields InOrder s (Code.onLine line [(op, arg)]) t := by
  refine ⟨hinv, hextends, ?_⟩
  intro i hi
  cases List.mem_singleton.mp hi
  exact ⟨hvalid, hstop, hjump⟩

/-- An instruction with the constant of a name is straight code. -/
theorem named_yields {s t : GenState PoolVars} {name : String} {index line : Nat} {op : PoolOp}
    (hnamed : Named s name index t) (hlayout : Opcode.layout op = .constant) :
    backend.Yields InOrder s (Code.onLine line [(op, (index : Int))]) t := by
  have hindex : index < t.pool.size :=
    (Array.getElem?_eq_some_iff.mp hnamed.constant).1
  refine yields_onLine hnamed.inOrder hnamed.pool_extends
    (.of_index hindex hnamed.inOrder.pool_le hlayout) ?_ (by rw [hlayout]; rfl)
  rintro rfl
  cases hlayout

/-- An access to a variable is straight code, whether the variable is local or global. -/
theorem access_yields {onLocal onGlobal : PoolOp} {name : String} {s t : GenState PoolVars}
    {code : Code PoolOp} (hlocal : Opcode.layout onLocal = .byte)
    (hglobal : Opcode.layout onGlobal = .constant)
    (h : access onLocal onGlobal name s = .ok (code, t)) (hs : InOrder s.pool s.vars) :
    backend.Yields InOrder s code t := by
  rcases access_ok h hs with ⟨slot, hslot, rfl, rfl⟩ | ⟨-, index, hnamed, rfl⟩
  · have hfits : (Opcode.layout onLocal).fits slot = true := by
      have := slotOf?_lt hslot
      have := hs.locals_le
      have : localLimit = 256 := rfl
      simp only [hlocal, Layout.fits, decide_eq_true_eq]
      omega
    refine yields_onLine hs (.refl _) (.of_fits hfits (by simp [hlocal])) ?_ (by rw [hlocal]; rfl)
    rintro rfl
    cases hlocal
  · exact named_yields hnamed hglobal

theorem access_refuses (onLocal onGlobal : PoolOp) (name : String) :
    (access onLocal onGlobal name).Refuses := by
  refine Refuses.bind vars_refuses fun v => ?_
  cases slotOf? name v.locals with
  | some slot => exact instrs_refuses _
  | none => exact Refuses.bind (nameConstant_refuses name) fun _ => instrs_refuses _

/-- The backend of the pool machine is lawful, with the invariant that its variables are in order.
-/
theorem backend_lawful : backend.Lawful InOrder where
  legible := ofByte?_byte
  fresh := ⟨Nat.zero_le _, Nat.zero_le _, fun h => by simp [backend] at h⟩
  literal := by
    intro v s code t h hs
    rcases literal_ok h with ⟨op, hop, rfl, rfl⟩ | ⟨-, hroom, rfl, rfl⟩
    · have hplain : Opcode.layout op = .none ∧ op ≠ return_ := by
        unfold ofLiteral? at hop
        split at hop <;> cases hop <;> exact ⟨rfl, by decide⟩
      exact yields_onLine hs (.refl _) (.of_fits (by rw [hplain.1]; rfl) (by simp [hplain.1]))
        hplain.2 (by rw [hplain.1]; rfl)
    · have hextends := Pool.Extends.push s.pool v
      have hsize : (s.pool.push v).size ≤ Pool.limit := by
        rw [Array.size_push]
        exact hroom
      have hindex : s.pool.size < (s.pool.push v).size := by simp
      exact yields_onLine (hs.extend hextends hsize) hextends (.of_index hindex hsize rfl)
        (by decide) rfl
  fetch := access_yields rfl rfl
  store := access_yields rfl rfl
  declare := by
    intro name s code t h hs
    rcases declare_ok h hs with ⟨-, hroom, rfl, rfl⟩ | ⟨-, index, hnamed, rfl⟩
    · exact ⟨⟨hs.pool_le, hroom, hs.names_get⟩, .refl _, by simp⟩
    · exact named_yields hnamed rfl
  enter h := ⟨h.pool_le, h.locals_le, h.names_get⟩
  leave h := ⟨h.pool_le, Nat.le_trans (List.dropWhile_sublist _).length_le h.locals_le, h.names_get⟩
  unset line pool := by
    intro i hi
    cases List.mem_singleton.mp hi
    exact ⟨.of_fits rfl (by decide), by rintro ⟨⟩, rfl⟩
  unary op := by cases op <;> exact ⟨rfl, by decide⟩
  binary op := by cases op <;> decide
  plain := by decide
  jumps := by decide
  -- the jump on a true condition is led up to by a jump over it
  lead := .inr ⟨jumpIfFalse, by decide⟩
  stop := rfl
  literal_refuses v := by
    cases v with
    | bool b => cases b <;> exact instrs_refuses _
    | nil => exact instrs_refuses _
    | int _ | double _ | string _ =>
        exact Refuses.bind (addConstant_refuses _) fun _ => instrs_refuses _
  fetch_refuses name := access_refuses _ _ name
  store_refuses name := access_refuses _ _ name
  declare_refuses name := by
    refine Refuses.bind vars_refuses fun v => ?_
    split
    · refine Refuses.bind (Refuses.bind vars_refuses fun v => ?_) fun _ => .pure _
      split
      · exact setVars_refuses _
      · exact failHere_refuses fun _ => rfl
    · exact Refuses.bind (nameConstant_refuses name) fun _ => instrs_refuses _

end PoolOp

/-! ## The word machine -/

namespace WordVars

open Gen

/-- The slots in use are those that have been handed out. -/
structure InOrder (v : WordVars) : Prop where
  next_le : v.next ≤ slotLimit
  slot_lt {scope : Scope Nat} {name : String} {slot : Nat} :
    scope ∈ v.scopes.all → scope[name]? = some slot → slot < v.next

/-- The slot of a variable is the one of the nearest declaration, and looking it up changes nothing.
-/
theorem slot_ok {name : String} {s t : GenState WordVars} {n : Nat}
    (h : slot name s = .ok (n, t)) : s.vars.scopes.find? name = some n ∧ t = s := by
  have h := vars_bind_eq_ok.mp h
  cases hfind : s.vars.scopes.find? name with
  | some known =>
      simp only [hfind] at h
      cases pure_eq_ok.mp h
      exact ⟨rfl, rfl⟩
  | none =>
      simp only [hfind] at h
      cases h

/-- A declaration reuses the slot that its name has in the innermost scope, or takes the next free
one. -/
theorem allocate_ok {name : String} {s t : GenState WordVars} {n : Nat}
    (h : allocate name s = .ok (n, t)) :
    (s.vars.scopes.inner[name]? = some n ∧ t = s) ∨
      (s.vars.scopes.inner[name]? = none ∧ s.vars.next < slotLimit ∧ n = s.vars.next ∧
        t = s.withVars
          { scopes := s.vars.scopes.define name s.vars.next, next := s.vars.next + 1 }) := by
  have h := vars_bind_eq_ok.mp h
  cases hinner : s.vars.scopes.inner[name]? with
  | some known =>
      simp only [hinner] at h
      cases pure_eq_ok.mp h
      exact .inl ⟨rfl, rfl⟩
  | none =>
      simp only [hinner] at h
      by_cases hroom : s.vars.next < slotLimit
      · rw [if_pos hroom] at h
        have h := setVars_bind_eq_ok.mp h
        cases pure_eq_ok.mp h
        exact .inr ⟨rfl, hroom, rfl, rfl⟩
      · rw [if_neg hroom] at h
        cases h

theorem slot_refuses (name : String) : (slot name).Refuses := by
  refine Refuses.bind vars_refuses fun v => ?_
  cases v.scopes.find? name with
  | some slot => exact .pure slot
  | none => exact failHere_refuses fun _ => rfl

theorem allocate_refuses (name : String) : (allocate name).Refuses := by
  refine Refuses.bind vars_refuses fun v => ?_
  cases v.scopes.inner[name]? with
  | some slot => exact .pure slot
  | none =>
      dsimp only
      split
      · exact Refuses.bind (setVars_refuses _) fun _ => .pure _
      · exact failHere_refuses fun _ => rfl

/-- The slot of a variable is in use. -/
theorem InOrder.find?_lt {v : WordVars} (h : v.InOrder) {name : String} {n : Nat}
    (hn : v.scopes.find? name = some n) : n < v.next := by
  obtain ⟨scope, hscope, hname⟩ := List.exists_of_findSome?_eq_some hn
  exact h.slot_lt hscope hname

/-- A new slot keeps the slots in order. -/
theorem InOrder.define {v : WordVars} (h : v.InOrder) (hroom : v.next < slotLimit)
    (name : String) :
    InOrder { scopes := v.scopes.define name v.next, next := v.next + 1 } := by
  refine ⟨hroom, ?_⟩
  intro scope other slot hscope hslot
  show slot < v.next + 1
  -- the new slot is in the innermost scope, and all others are smaller
  rcases List.mem_cons.mp hscope with rfl | houter
  · have hslot : (v.scopes.inner.insert name v.next)[other]? = some slot := hslot
    rw [Std.TreeMap.getElem?_insert] at hslot
    split at hslot
    · cases hslot
      omega
    · have := h.slot_lt (List.mem_cons_self ..) hslot
      omega
  · have := h.slot_lt (List.mem_cons_of_mem _ houter) hslot
    omega

/-- Handing out a slot keeps the slots in order. -/
theorem InOrder.allocate {s t : GenState WordVars} {name : String} {n : Nat}
    (hs : s.vars.InOrder) (h : WordVars.allocate name s = .ok (n, t)) :
    t.vars.InOrder ∧ n < t.vars.next ∧ t.pool = s.pool := by
  rcases allocate_ok h with ⟨hinner, rfl⟩ | ⟨-, hroom, rfl, rfl⟩
  · exact ⟨hs, hs.slot_lt (List.mem_cons_self ..) hinner, rfl⟩
  · exact ⟨hs.define hroom name, Nat.lt_succ_self _, rfl⟩

/-- A new scope is empty, so no slot of it could be out of order. -/
theorem InOrder.enter {v : WordVars} (h : v.InOrder) :
    InOrder { v with scopes := v.scopes.enter } := by
  refine ⟨h.next_le, ?_⟩
  intro scope name slot hscope hslot
  rcases List.mem_cons.mp hscope with rfl | hscope
  · have hslot : (∅ : Scope Nat)[name]? = some slot := hslot
    simp at hslot
  · exact h.slot_lt hscope hslot

/-- What is left of the scopes has slots that were in order before. -/
theorem InOrder.leave {v : WordVars} (h : v.InOrder) :
    InOrder { v with scopes := v.scopes.leave } := by
  refine ⟨h.next_le, ?_⟩
  intro scope name slot hscope hslot
  -- the scopes that remain were there before
  have hmem : scope ∈ v.scopes.all := by
    unfold Scopes.leave at hscope
    split at hscope
    · exact hscope
    · rename_i inner outer houter
      refine List.mem_cons_of_mem _ ?_
      rw [houter]
      exact hscope
  exact h.slot_lt hmem hslot

end WordVars

namespace WordOp

open Gen WordVars

/-- What the word backend remembers does not depend on the pool. -/
abbrev Inv (_ : Pool) (v : WordVars) : Prop :=
  v.InOrder

/-- An instruction with a slot that has been handed out is straight code. -/
theorem straight_var {pool : Pool} {v : WordVars} {n line : Nat} {op : WordOp} (hv : v.InOrder)
    (hn : n < v.next) (hop : Opcode.layout op = .word) :
    Instr.Straight stopScript pool { op, arg := (n : Int), line : Instr WordOp } := by
  refine ⟨.of_fits ?_ (by simp [hop]), ?_, by rw [hop]; rfl⟩
  · have := hv.next_le
    have : slotLimit = 65535 := rfl
    simp only [hop, Layout.fits, decide_eq_true_eq]
    omega
  · rintro rfl
    cases hop

/-- A literal that has a word fits sixteen bits with sign. -/
theorem word?_bounds {v : Value} {word : Int} (h : v.word? = some word) :
    -32768 ≤ word ∧ word < 32768 := by
  cases v with
  | int n =>
      have h : (if -32768 ≤ n.toInt ∧ n.toInt < 32768 then some n.toInt else none) = some word := h
      by_cases hn : -32768 ≤ n.toInt ∧ n.toInt < 32768
      · rw [if_pos hn] at h
        rw [← Option.some.inj h]
        exact hn
      · rw [if_neg hn] at h
        cases h
  | bool b => cases b <;> cases h <;> decide
  | double _ | string _ | nil => cases h

/-- A literal is one instruction with the literal's word. -/
theorem literal_ok {v : Value} {s t : GenState WordVars} {code : Code WordOp}
    (h : backend.literal v s = .ok (code, t)) :
    ∃ word, v.word? = some word ∧ code = Code.onLine s.line [(pushWord, word)] ∧ t = s := by
  cases hword : v.word? with
  | some word =>
      simp only [backend, hword] at h
      cases instrs_eq_ok.mp h
      exact ⟨word, rfl, rfl, rfl⟩
  | none =>
      simp only [backend, hword] at h
      cases h

/-- Reading a variable is one instruction with its slot. -/
theorem fetch_ok {name : String} {s t : GenState WordVars} {code : Code WordOp}
    (h : backend.fetch name s = .ok (code, t)) :
    ∃ n : Nat, s.vars.scopes.find? name = some n ∧
      code = Code.onLine s.line [(getVar, (n : Int))] ∧ t = s := by
  obtain ⟨n, u, hslot, hcode⟩ := bind_eq_ok.mp h
  obtain ⟨hfind, rfl⟩ := slot_ok hslot
  cases instrs_eq_ok.mp hcode
  exact ⟨n, hfind, rfl, rfl⟩

/-- Assigning to a variable duplicates the value first, so that one is left on the stack. -/
theorem store_ok {name : String} {s t : GenState WordVars} {code : Code WordOp}
    (h : backend.store name s = .ok (code, t)) :
    ∃ n : Nat, s.vars.scopes.find? name = some n ∧
      code = Code.onLine s.line [(dup, 0), (setVar, (n : Int))] ∧ t = s := by
  obtain ⟨n, u, hslot, hcode⟩ := bind_eq_ok.mp h
  obtain ⟨hfind, rfl⟩ := slot_ok hslot
  cases instrs_eq_ok.mp hcode
  exact ⟨n, hfind, rfl, rfl⟩

/-- The backend of the word machine is lawful, with the invariant that its slots are in order. -/
theorem backend_lawful : backend.Lawful Inv where
  legible := ofByte?_byte
  fresh := by
    refine ⟨Nat.zero_le _, ?_⟩
    intro scope name slot hscope hslot
    cases List.mem_singleton.mp hscope
    have hslot : (∅ : Scope Nat)[name]? = some slot := hslot
    simp at hslot
  literal := by
    intro v s code t h hs
    obtain ⟨word, hword, rfl, rfl⟩ := literal_ok h
    refine ⟨hs, .refl _, ?_⟩
    intro i hi
    cases List.mem_singleton.mp hi
    exact ⟨.of_fits (decide_eq_true (word?_bounds hword)) (by decide), by rintro ⟨⟩, rfl⟩
  fetch := by
    intro name s code t h hs
    obtain ⟨n, hfind, rfl, rfl⟩ := fetch_ok h
    refine ⟨hs, .refl _, ?_⟩
    intro i hi
    cases List.mem_singleton.mp hi
    exact straight_var hs (hs.find?_lt hfind) rfl
  store := by
    intro name s code t h hs
    obtain ⟨n, hfind, rfl, rfl⟩ := store_ok h
    refine ⟨hs, .refl _, ?_⟩
    intro i hi
    -- an assignment is two instructions, of which the first one has no slot
    rcases List.mem_cons.mp hi with rfl | hi
    · exact ⟨.of_fits rfl (by decide), by rintro ⟨⟩, rfl⟩
    · cases List.mem_singleton.mp hi
      exact straight_var hs (hs.find?_lt hfind) rfl
  declare := by
    intro name s code t h hs
    obtain ⟨n, u, hslot, hcode⟩ := bind_eq_ok.mp h
    cases instrs_eq_ok.mp hcode
    obtain ⟨hu, hn, hpool⟩ := hs.allocate hslot
    refine ⟨hu, by rw [hpool]; exact .refl _, ?_⟩
    intro i hi
    cases List.mem_singleton.mp hi
    exact straight_var hu hn rfl
  enter h := h.enter
  leave h := h.leave
  unset line pool := by
    intro i hi
    cases List.mem_singleton.mp hi
    exact ⟨.of_fits rfl (by decide), by rintro ⟨⟩, rfl⟩
  unary op := by cases op <;> exact ⟨rfl, by decide⟩
  binary op := by cases op <;> decide
  plain := by decide
  jumps := by decide
  lead := .inl rfl
  stop := rfl
  literal_refuses v := by
    intro s e h
    cases hword : v.word? with
    | some word =>
        simp only [backend, hword] at h
        exact instrs_refuses _ s e h
    | none =>
        simp only [backend, hword] at h
        exact failHere_refuses (fun _ => rfl) s e h
  fetch_refuses name := Refuses.bind (slot_refuses name) fun _ => instrs_refuses _
  store_refuses name := Refuses.bind (slot_refuses name) fun _ => instrs_refuses _
  declare_refuses name := Refuses.bind (allocate_refuses name) fun _ => instrs_refuses _

end WordOp

end Scriptlet
