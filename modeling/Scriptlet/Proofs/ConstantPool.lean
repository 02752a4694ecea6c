import Mathlib.Data.List.Pairwise
import Scriptlet.Proofs.Mentions
import Scriptlet.Proofs.Tracking

/-! # The pool of constants is exact

The generator keeps a table of names and grows the pool while it walks over the program. The invariant
of that walk (`Tallied`) ties both to the history of the walk: to the constants drawn so far, each with
the mention that it was drawn for. One step draws one constant: a new one at the end of the pool, or the
one that the table has for the name. Expressions and statements draw theirs one after the other
(`PoolOp.Draws`), so the history of a whole program is the list of its mentions.

## Main statement

* `constant_pool_exact`: the pool of a generated chunk, and the operands that point into it, are those
  of the mentions of its program.
-/

namespace Scriptlet

/-! ## The history of the walk -/

/-- The local variables of some blocks, the last one declared first. -/
def Blocks.locals : Blocks → List Local
  | [] => []
  | here :: outer =>
      here.map (fun name => { name, depth := outer.length + 1 }) ++ Blocks.locals outer

/-- Two constants are drawn from one place exactly if they are the name of one variable. -/
def Mention.Apart (d d' : Mention × Nat) : Prop :=
  d.2 = d'.2 ↔ d.1.shares d'.1 = true

instance : Std.Symm Mention.Apart where
  symm d d' h := by
    unfold Mention.Apart at *
    rw [eq_comm, Mention.shares_comm]
    exact h

/-- The generator stands in some blocks and has drawn some constants: each for a mention, at an index
of the pool. The pool holds what was drawn and nothing else, and the names in the table are those that
have been mentioned. -/
structure Tallied (blocks : Blocks) (drawn : List (Mention × Nat)) (pool : Pool)
    (vars : PoolVars) : Prop where
  depth_eq : vars.depth = blocks.length
  locals_eq : vars.locals = blocks.locals
  pool_eq : pool.toList = (Mention.firsts (drawn.map Prod.fst)).map Mention.value
  names_iff {name : String} {index : Nat} :
    vars.names[name]? = some index ↔ ∃ m, m.name? = some name ∧ (m, index) ∈ drawn
  value_eq {d : Mention × Nat} : d ∈ drawn → pool[d.2]? = some d.1.value
  apart : drawn.Pairwise Mention.Apart

namespace Tallied

variable {blocks : Blocks} {drawn : List (Mention × Nat)} {pool : Pool} {vars : PoolVars}
  {m : Mention} {name : String}

/-- What was drawn is in the pool. -/
theorem index_lt (h : Tallied blocks drawn pool vars) {d : Mention × Nat} (hd : d ∈ drawn) :
    d.2 < pool.size :=
  (Array.getElem?_eq_some_iff.mp (h.value_eq hd)).1

/-- A constant is added for a mention that shares none. -/
theorem push (h : Tallied blocks drawn pool vars) {names : Std.TreeMap String Nat}
    (hnew : ∀ d ∈ drawn, m.shares d.1 = false)
    (hnames : ∀ name index, names[name]? = some index ↔
      vars.names[name]? = some index ∨ m.name? = some name ∧ index = pool.size) :
    Tallied blocks (drawn ++ [(m, pool.size)]) (pool.push m.value) { vars with names } := by
  constructor
  · exact h.depth_eq
  · exact h.locals_eq
  · -- It shares with no mention so far, so it is a first one.
    have hany : (Mention.firsts (drawn.map Prod.fst)).any m.shares = false := by
      rw [Mention.any_firsts, List.any_map, List.any_eq_false]
      intro d hd
      simpa using hnew d hd
    rw [List.map_append, List.map_singleton, Mention.firsts_concat, hany]
    simp [h.pool_eq]
  · intro name index
    show names[name]? = some index ↔ _
    rw [hnames, h.names_iff]
    constructor
    · rintro (⟨other, hother, hmem⟩ | ⟨hm, rfl⟩)
      · exact ⟨other, hother, List.mem_append_left _ hmem⟩
      · exact ⟨m, hm, by simp⟩
    · rintro ⟨other, hother, hmem⟩
      rcases List.mem_append.mp hmem with hmem | hmem
      · exact .inl ⟨other, hother, hmem⟩
      · cases List.mem_singleton.mp hmem
        exact .inr ⟨hother, rfl⟩
  · intro d hd
    rcases List.mem_append.mp hd with hd | hd
    · exact (Pool.Extends.push pool m.value).getElem? (h.value_eq hd)
    · cases List.mem_singleton.mp hd
      simp
  · rw [List.pairwise_append]
    refine ⟨h.apart, List.pairwise_singleton _ _, ?_⟩
    intro d hd d' hd'
    cases List.mem_singleton.mp hd'
    -- The new constant is behind all others, and it is the name of no variable mentioned before.
    have hlt := h.index_lt hd
    have hshares := hnew d hd
    rw [Mention.shares_comm] at hshares
    constructor
    · intro heq
      exact absurd heq (Nat.ne_of_lt hlt)
    · intro hshared
      rw [hshares] at hshared
      cases hshared

/-- A later mention of a name draws the constant that the name has. -/
theorem share (h : Tallied blocks drawn pool vars) {index : Nat} (hm : m.name? = some name)
    (hindex : vars.names[name]? = some index) :
    Tallied blocks (drawn ++ [(m, index)]) pool vars := by
  obtain ⟨first, hfirst, hmem⟩ := h.names_iff.mp hindex
  have hshares : m.shares first = true := Mention.shares_iff.mpr ⟨name, hm, hfirst⟩
  constructor
  · exact h.depth_eq
  · exact h.locals_eq
  · have hany : (Mention.firsts (drawn.map Prod.fst)).any m.shares = true := by
      rw [Mention.any_firsts, List.any_map, List.any_eq_true]
      exact ⟨_, hmem, hshares⟩
    rw [List.map_append, List.map_singleton, Mention.firsts_concat, hany]
    exact h.pool_eq
  · intro other index'
    rw [h.names_iff]
    constructor
    · rintro ⟨m', hm', hmem'⟩
      exact ⟨m', hm', List.mem_append_left _ hmem'⟩
    · rintro ⟨m', hm', hmem'⟩
      rcases List.mem_append.mp hmem' with hmem' | hmem'
      · exact ⟨m', hm', hmem'⟩
      · cases List.mem_singleton.mp hmem'
        rw [hm] at hm'
        cases hm'
        exact ⟨first, hfirst, hmem⟩
  · intro d hd
    rcases List.mem_append.mp hd with hd | hd
    · exact h.value_eq hd
    · cases List.mem_singleton.mp hd
      have hvalue := h.value_eq hmem
      rw [Mention.value_of_name? hfirst] at hvalue
      rw [Mention.value_of_name? hm]
      exact hvalue
  · rw [List.pairwise_append]
    refine ⟨h.apart, List.pairwise_singleton _ _, ?_⟩
    intro d hd d' hd'
    cases List.mem_singleton.mp hd'
    constructor
    · intro heq
      -- What was drawn from this place before was drawn for this name.
      by_cases hd_first : d = (first, index)
      · rw [hd_first, Mention.shares_comm]
        exact hshares
      · have happart := h.apart.forall hd hmem hd_first
        have hshared : d.1.shares first = true := happart.mp heq
        rw [Mention.shares_comm] at hshares
        exact Mention.shares_trans hshared hshares
    · intro hshared
      obtain ⟨other, hd_name, hm_name⟩ := Mention.shares_iff.mp hshared
      rw [hm] at hm_name
      cases hm_name
      have hd_index := h.names_iff.mpr ⟨d.1, hd_name, hd⟩
      rw [hindex] at hd_index
      exact (Option.some.inj hd_index).symm

/-- A literal draws a constant of its own. -/
theorem literal (h : Tallied blocks drawn pool vars) (v : Value) :
    Tallied blocks (drawn ++ [(.literal v, pool.size)]) (pool.push v) vars := by
  apply h.push (m := .literal v)
  · intro d _
    rfl
  · intro name index
    constructor
    · exact .inl
    · rintro (hknown | ⟨hname, -⟩)
      · exact hknown
      · cases hname

/-- A mention of a name draws the constant of the name. -/
theorem nameConstant {s t : GenState PoolVars} {index : Nat}
    (h : Tallied blocks drawn s.pool s.vars) (hm : m.name? = some name)
    (hindex : PoolVars.nameConstant name s = .ok (index, t)) :
    Tallied blocks (drawn ++ [(m, index)]) t.pool t.vars := by
  rcases PoolVars.nameConstant_cases hindex with ⟨hknown, rfl⟩ | ⟨hunknown, -, rfl, rfl⟩
  · exact h.share hm hknown
  · rw [← Mention.value_of_name? hm]
    apply h.push
    · intro d hd
      -- A variable that has been mentioned is in the table.
      rw [Bool.eq_false_iff]
      intro hshares
      obtain ⟨other, hm', hother⟩ := Mention.shares_iff.mp hshares
      rw [hm] at hm'
      cases hm'
      rw [h.names_iff.mpr ⟨d.1, hother, hd⟩] at hunknown
      cases hunknown
    · intro other index
      rw [Scope.getElem?_insert, hm, Option.some.injEq]
      by_cases hother : name = other
      · subst hother
        rw [if_pos rfl, hunknown]
        simp [eq_comm]
      · simp [hother]

end Tallied

/-! ## Blocks -/

/-- A name without slot is the name of no local variable. -/
theorem PoolVars.slotOf?_eq_none {name : String} {locals : List Local} :
    slotOf? name locals = none ↔ name ∉ locals.map Local.name := by
  induction locals with
  | nil => simp [slotOf?]
  | cons l below ih =>
    rw [slotOf?, List.map_cons, List.mem_cons, not_or]
    by_cases hl : l.name = name
    · simp [hl]
    · rw [if_neg hl, ih]
      simp [Ne.symm hl]

namespace Blocks

variable {blocks : Blocks}

/-- The local variables have the names that the blocks declare. -/
theorem map_name_locals (blocks : Blocks) : blocks.locals.map Local.name = blocks.flatten := by
  induction blocks with
  | nil => rfl
  | cons here outer ih => simp [locals, ih, Function.comp_def]

/-- No local variable is deeper than the blocks that are open. -/
theorem depth_le_of_mem_locals {l : Local} (h : l ∈ blocks.locals) : l.depth ≤ blocks.length := by
  induction blocks with
  | nil => cases h
  | cons here outer ih =>
    rw [locals, List.mem_append, List.mem_map] at h
    rw [List.length_cons]
    rcases h with ⟨name, -, rfl⟩ | h
    · exact Nat.le_refl _
    · exact Nat.le_succ_of_le (ih h)

end Blocks

namespace Tallied

variable {blocks : Blocks} {drawn : List (Mention × Nat)} {pool : Pool} {vars : PoolVars}
  {name : String}

/-- A name has no slot exactly if no open block declares it. -/
theorem slotOf?_eq_none (h : Tallied blocks drawn pool vars) :
    PoolVars.slotOf? name vars.locals = none ↔ name ∉ blocks.flatten := by
  rw [PoolVars.slotOf?_eq_none, h.locals_eq, Blocks.map_name_locals]

/-- A declaration in a block adds a name to the innermost block, and draws nothing. -/
theorem declareLocal (h : Tallied blocks drawn pool vars) (hdepth : 0 < vars.depth) :
    Tallied (blocks.declare [name]) drawn pool
      { vars with locals := { name, depth := vars.depth } :: vars.locals } := by
  cases blocks with
  | nil =>
    rw [h.depth_eq] at hdepth
    cases hdepth
  | cons here outer =>
    have hlocals : { name, depth := vars.depth } :: vars.locals
        = Blocks.locals (Blocks.declare [name] (here :: outer)) := by
      rw [h.depth_eq, h.locals_eq]
      rfl
    exact { h with locals_eq := hlocals }

theorem enter (h : Tallied blocks drawn pool vars) :
    Tallied ([] :: blocks) drawn pool (PoolOp.backend.enter vars) :=
  { h with depth_eq := congrArg (· + 1) h.depth_eq }

/-- The end of a block forgets the variables of the block, and no name. -/
theorem leave {here : List String} (h : Tallied (here :: blocks) drawn pool vars) :
    Tallied blocks drawn pool (PoolOp.backend.leave vars).2 := by
  have hdepth : vars.depth - 1 = blocks.length := by
    rw [h.depth_eq]
    rfl
  have hhere : ∀ l ∈ here.map (fun name => ({ name, depth := blocks.length + 1 } : Local)),
      vars.depth - 1 < l.depth := by
    intro l hl
    obtain ⟨name, -, rfl⟩ := List.mem_map.mp hl
    rw [hdepth]
    exact Nat.lt_succ_self _
  -- the locals of outer blocks are not deeper than the block that is left
  have hbelow : ∀ l ∈ blocks.locals, l.depth ≤ vars.depth - 1 := by
    intro l hl
    rw [hdepth]
    exact Blocks.depth_le_of_mem_locals hl
  have hleave : PoolOp.backend.leave vars = _ := PoolVars.leave_eq h.locals_eq hhere hbelow
  rw [hleave]
  exact { h with depth_eq := hdepth, locals_eq := rfl }

end Tallied

/-! ## Instructions that draw constants -/

/-- Does the operand of the instruction point into the pool? -/
def PoolOp.readsPool (op : PoolOp) : Bool :=
  Opcode.layout op == .constant

theorem PoolOp.operand?_of_readsPool (r : Record PoolOp) (h : r.op.readsPool = true) :
    r.operand? = some r.instr.arg := by
  have hlayout : Opcode.layout r.op = .constant := by simpa [readsPool] using h
  rw [Record.operand?, hlayout]

namespace PoolOp

/-- Only literals and names of variables are drawn from the pool. -/
theorem backend_unpicked : backend.Unpicked readsPool where
  unset := rfl
  unary op := by cases op <;> rfl
  binary op := by cases op <;> decide
  print := rfl
  pop := rfl
  keep := by decide
  drop := by decide
  jump := rfl
  jumpUnless := rfl
  lead := by decide
  jumpIf := rfl
  loop := rfl
  stop := rfl

/-- From the state `s`, code draws constants for some mentions, and leads to the state `t`. -/
def Draws (ms : List Mention) (code : Code PoolOp) (before : Blocks) (s : GenState PoolVars)
    (after : Blocks) (t : GenState PoolVars) : Prop :=
  code.Tracks readsPool Mention.op (fun drawn => Tallied before drawn s.pool s.vars)
    (fun drawn => Tallied after drawn t.pool t.vars) ms

/-! ## Expressions -/

section Expressions

variable {s t : GenState PoolVars} {code : Code PoolOp} (blocks : Blocks)

/-- A literal has a constant, unless there is an instruction for it. -/
theorem hasConstant_eq (v : Value) : v.hasConstant = (ofLiteral? v).isNone := by
  cases v with
  | bool b => cases b <;> rfl
  | int _ | double _ | string _ | nil => rfl

/-- A literal draws its constant, if it has one. -/
theorem draws_literal {v : Value} (h : backend.literal v s = .ok (code, t)) :
    Draws (Mention.ofLiteral v) code blocks s blocks t := by
  unfold Mention.ofLiteral
  rw [hasConstant_eq]
  rcases literal_ok h with ⟨op, hop, rfl, rfl⟩ | ⟨hop, -, rfl, rfl⟩
  · rw [hop]
    apply Code.Tracks.nothing
    apply Code.picked_plain
    intro op' hop'
    cases List.mem_singleton.mp hop'
    unfold ofLiteral? at hop
    split at hop <;> cases hop <;> rfl
  · rw [hop]
    exact Code.Tracks.single rfl fun drawn hs => hs.literal v

/-- An access to a variable draws the constant of its name, if it is no local variable. -/
theorem draws_access (onLocal : PoolOp) {name : String} {m : Mention} (hm : m.name? = some name)
    (hlocal : onLocal.readsPool = false) (hglobal : m.op.readsPool = true)
    (h : access onLocal m.op name s = .ok (code, t)) :
    Draws (Mention.ofAccess blocks.flatten name m) code blocks s blocks t := by
  intro drawn hs
  have hslot : PoolVars.slotOf? name s.vars.locals = none ↔ name ∉ blocks.flatten :=
    hs.slotOf?_eq_none
  unfold Mention.ofAccess
  rcases access_cases h with ⟨slot, hfound, rfl, rfl⟩ | ⟨hnone, index, hindex, rfl⟩
  · -- A slot is found for the names of open blocks only.
    have hmem : name ∈ blocks.flatten := by
      by_contra hmem
      rw [hslot.mpr hmem] at hfound
      cases hfound
    rw [if_pos hmem]
    exact ⟨[], rfl, Backend.Unpicked.picked_one hlocal, by rwa [List.append_nil]⟩
  -- A global name draws its constant, the first time as well as later.
  · rw [if_neg (hslot.mp hnone)]
    refine ⟨[(m, index)], rfl, ?_, hs.nameConstant hm hindex⟩
    simp [Code.picked, Code.onLine, hglobal]

/-- An expression draws for its literals and global names, in the order of evaluation. -/
theorem draws_expr {e : Expr} {kind : StaticKind} (h : backend.Emits s e kind code t) :
    Draws (e.mentions blocks.flatten) code blocks s blocks t := by
  induction h with
  | literal _ hcode =>
    have hdraws := draws_literal blocks hcode
    exact hdraws
  | group _ ih => exact ih
  | @unary _ _ _ op _ _ _ _ _ _ _ ih =>
    exact ih.append_plain (List.forall_mem_singleton.mpr (backend_unpicked.unary op))
  | @binary _ _ _ line op _ _ _ _ _ rightCode _ _ _ _ _ ihLeft ihRight =>
    exact ihLeft.append (ihRight.append_plain (backend_unpicked.binary op))
  | @ident _ _ _ name _ _ hcode =>
    have hdraws := draws_access blocks getLocal (m := .fetch name) rfl rfl rfl hcode
    exact hdraws
  | @assign _ _ _ _ name _ _ _ _ _ _ hstore ih =>
    have hdraws := draws_access blocks setLocal (m := .store name) rfl rfl rfl hstore
    exact ih.append hdraws
  | @logical _ _ _ _ op _ _ _ _ leftCode rightCode _ _ _ _ hskipped _ ihLeft ihRight =>
    subst hskipped
    have hdraws := ihLeft.append ihRight
    exact hdraws.congr (backend_unpicked.picked_logical op leftCode rightCode)

end Expressions

/-! ## Statements -/

/-- A declaration outside of all blocks draws the constant of its name; in a block it draws nothing. -/
theorem draws_declare {s t : GenState PoolVars} {code : Code PoolOp} {name : String}
    (blocks : Blocks) (h : backend.declare name s = .ok (code, t)) :
    Draws (blocks.mentionsOfDeclaration name) code blocks s (blocks.declare [name]) t := by
  intro drawn hs
  have hdepth_eq := hs.depth_eq
  rcases declare_cases h with ⟨hdepth, -, rfl, rfl⟩ | ⟨hdepth, index, hindex, rfl⟩
  -- Where a local is declared, a block is open.
  · have hempty : blocks.isEmpty = false := by
      cases blocks with
      | nil =>
        rw [hdepth_eq] at hdepth
        cases hdepth
      | cons _ _ => rfl
    rw [Blocks.mentionsOfDeclaration, hempty]
    refine ⟨[], rfl, rfl, ?_⟩
    rw [List.append_nil]
    exact hs.declareLocal hdepth
  -- Outside all blocks the declaration is one of a global name.
  · rw [hdepth] at hdepth_eq
    cases List.length_eq_zero_iff.mp hdepth_eq.symm
    exact ⟨[(.define name, index)], rfl, rfl, hs.nameConstant rfl hindex⟩

mutual

/-- A statement draws the constants of its mentions. -/
theorem draws_stmt {s t : GenState PoolVars} {st : Stmt} {code : Code PoolOp} (blocks : Blocks)
    (h : backend.EmitsStmt s st code t) :
    Draws (st.mentions blocks) code blocks s (blocks.declare st.declared) t := by
  cases h with
  | print hvalue _ =>
    rw [Stmt.mentions, Stmt.declared, Blocks.declare_nil]
    have hdraws := draws_expr blocks hvalue
    exact hdraws.append_plain (by decide)
  | expression hvalue _ =>
    rw [Stmt.mentions, Stmt.declared, Blocks.declare_nil]
    have hdraws := draws_expr blocks hvalue
    exact hdraws.append_plain (by decide)
  | var hvalue _ hdeclare =>
    rw [Stmt.mentions, Stmt.declared]
    have hdraws := draws_declare blocks hdeclare
    exact (draws_expr blocks hvalue).append hdraws
  | varUnset _ hdeclare =>
    rw [Stmt.mentions, Stmt.declared]
    have hdraws := draws_declare blocks hdeclare
    apply hdraws.congr
    rw [Code.picked_append, backend_unpicked.picked_unset, List.nil_append]
  | @block _ t line body code hbody _ =>
    rw [Stmt.mentions, Stmt.declared, Blocks.declare_nil]
    -- The body draws with one more block open, and leaves the table of names to what follows.
    intro drawn hs
    obtain ⟨more, hms, hcode, ht⟩ := draws_all ([] :: blocks) hbody drawn hs.enter
    refine ⟨more, hms, ?_, ht.leave⟩
    rw [Code.picked_append, backend_unpicked.picked_pops, List.append_nil]
    exact hcode
  | @ifThen _ _ _ _ _ _ yes _ _ _ _ _ _ _ hcondition _ hyes hno hdrop _ _ _ =>
    subst hdrop
    have hdrawsYes := draws_stmt blocks hyes
    have hdrawsNo := draws_else (blocks.declare yes.declared) hno
    have hdraws := (draws_expr blocks hcondition).append (hdrawsYes.append hdrawsNo)
    rw [Stmt.mentions_ifThen, Stmt.declared_ifThen, Blocks.declare_append]
    exact hdraws.congr (backend_unpicked.picked_ifThen _ _ _)
  | whileDo hcondition _ hbody hdrop _ _ _ =>
    subst hdrop
    have hdrawsBody := draws_stmt blocks hbody
    have hdraws := (draws_expr blocks hcondition).append hdrawsBody
    rw [Stmt.mentions, Stmt.declared]
    exact hdraws.congr (backend_unpicked.picked_whileDo _ _)

/-- An else branch draws what its statement draws, and nothing if it is missing. -/
theorem draws_else {s t : GenState PoolVars} {line : Nat} {no : Option Stmt} {code : Code PoolOp}
    (blocks : Blocks) (h : backend.EmitsElse line s no code t) :
    Draws (no.elim [] (Stmt.mentions blocks)) code blocks s
      (blocks.declare (no.elim [] Stmt.declared)) t := by
  cases h with
  | none =>
    rw [Option.elim_none, Option.elim_none, Blocks.declare_nil]
    exact Code.Tracks.nothing rfl
  | some hno =>
    have hdraws := draws_stmt blocks hno
    exact hdraws

/-- Statements draw one after the other, each in the blocks that the ones before it have left. -/
theorem draws_all {s t : GenState PoolVars} {sts : List Stmt} {code : Code PoolOp}
    (blocks : Blocks) (h : backend.EmitsAll s sts code t) :
    Draws (Stmt.mentionsOfAll blocks sts) code blocks s
      (blocks.declare (sts.flatMap Stmt.declared)) t := by
  cases h with
  | nil =>
    rw [Stmt.mentionsOfAll, List.flatMap_nil, Blocks.declare_nil]
    exact Code.Tracks.nothing rfl
  | cons hfirst hrest =>
    rw [Stmt.mentionsOfAll, List.flatMap_cons, Blocks.declare_append]
    exact (draws_stmt blocks hfirst).append (draws_all _ hrest)

end

end PoolOp

/-! ## Programs -/

/-- Before the walk nothing has been drawn. -/
theorem Tallied.start : Tallied [] [] PoolOp.backend.start.pool PoolOp.backend.start.vars := by
  constructor
  · rfl
  · rfl
  · rfl
  · intro name index
    simp [Backend.start, PoolOp.backend]
  · intro d hd
    cases hd
  · exact .nil

/-- The pool of a generated chunk is exact, for programs of every shape. Its constants are those of the
first mentions, in their order: one for each literal number or string, and one for each different name
that is used or declared as a global variable. The instructions that point into the pool are those of
the mentions, in their order, and each of them points to the constant of its mention. Two of them point
to the same place exactly if they mention the same global variable. -/
theorem constant_pool_exact {p : Program} {c : Chunk} (hc : Target.pool.generate p = .ok c) :
    ∃ (records : List (Record PoolOp)) (drawn : List (Mention × Nat)),
      c.decode = .ok records ∧
      (records.filter fun r => r.op.readsPool).map (fun r => (r.op, r.operand?))
        = drawn.map (fun d => (d.1.op, some (d.2 : Int))) ∧
      drawn.map Prod.fst = p.mentions ∧
      c.pool.toList = (Mention.firsts p.mentions).map Mention.value ∧
      c.pool.size = p.literals.length + p.globals.toFinset.card ∧
      (∀ d ∈ drawn, c.pool[d.2]? = some d.1.value) ∧
      drawn.Pairwise (fun d d' => d.2 = d'.2 ↔ d.1.shares d'.1 = true) := by
  obtain ⟨code, t, hemits, hadds, rfl⟩ := PoolOp.backend_lawful.program_eq_ok hc
  have hdecode := (PoolOp.backend_lawful.wellFormed_ofCode hadds t.line).decodes
  have hdraws := PoolOp.draws_all [] hemits
  obtain ⟨drawn, hms, ht, hrecords⟩ := hdraws.exists_records Tallied.start
    PoolOp.operand?_of_readsPool PoolOp.backend_unpicked.stop t.pool t.line
  have hms : drawn.map Prod.fst = p.mentions := hms
  -- the pool is what was drawn, without what was there already
  have hpool : t.pool.toList = (Mention.firsts p.mentions).map Mention.value := by
    rw [← hms]
    exact ht.pool_eq
  refine ⟨_, drawn, hdecode, hrecords, hms, hpool, ?_, fun d => ht.value_eq, ht.apart⟩
  have hliterals : p.mentions.filterMap Mention.literal? = p.literals :=
    Stmt.literals_mentionsOfAll [] p
  have hsize : t.pool.size = (Mention.firsts p.mentions).length := by
    rw [← Array.length_toList, hpool, List.length_map]
  show t.pool.size = _
  rw [hsize, Mention.length_firsts, hliterals]
  rfl

/-- Names that are local in a block, one of them declared as a branch, and global around it; a literal
with the text of a name has a constant of its own. -/
theorem constant_pool_exact_shadowing :
    let p : Program :=
      [.var 1 "a" (some (.literal 1 (.string "a"))),
        .block 2
          [.var 2 "a" (some (.ident 2 "a")),
            .ifThen 3 (.ident 3 "b") (.var 3 "b" (some (.literal 3 (.int 1)))) none,
            .print 4 (.binary 4 .add (.ident 4 "a") (.ident 4 "b"))],
        .expression 5 (.assign 5 "b" (.ident 5 "a"))]
    ∃ (c : Chunk) (records : List (Record PoolOp)) (drawn : List (Mention × Nat)),
      Target.pool.generate p = .ok c ∧ c.decode = .ok records ∧
      (records.filter fun r => r.op.readsPool).map (fun r => (r.op, r.operand?))
        = drawn.map (fun d => (d.1.op, some (d.2 : Int))) ∧
      drawn.map Prod.fst
        = [.literal (.string "a"), .define "a", .fetch "a", .fetch "b", .literal (.int 1), .fetch "a",
          .store "b"] ∧
      c.pool.toList = [.string "a", .string "a", .string "b", .int 1] ∧
      (∀ d ∈ drawn, c.pool[d.2]? = some d.1.value) ∧
      drawn.Pairwise (fun d d' => d.2 = d'.2 ↔ d.1.shares d'.1 = true) := by
  intro p
  have hok : (Target.pool.generate p).isOk = true := by decide +kernel
  cases hc : Target.pool.generate p with
  | error e =>
    rw [hc] at hok
    cases hok
  | ok c =>
    obtain ⟨records, drawn, hdecode, hrecords, hms, hpool, -, hvalues, happart⟩ :=
      constant_pool_exact hc
    refine ⟨c, records, drawn, rfl, hdecode, hrecords, hms.trans ?_, hpool.trans ?_, hvalues,
      happart⟩
    · decide +kernel
    · decide +kernel

end Scriptlet
