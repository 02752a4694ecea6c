import Mathlib.Data.List.Forall2
import Scriptlet.Proofs.Tracking
import Scriptlet.Proofs.WordPreservation

/-! # Every variable has a slot of its own

Which variable a name stands for can be read off the text of a program: scopes are nested, and a name
belongs to the nearest one that has declared it so far. `Program.occurrences` lists the places where
variables are declared, fetched and stored, in the order of the walk over the program. Each of them
knows the scopes around it, which are numbered in the order in which the walk opens them.

The generator for the word machine keeps scopes of slots instead. The invariant of its walk (`Allotted`)
ties them to the history of the walk: to the occurrences so far, each with the slot that stands in its
instruction. The generator's scopes hold the slots of what has been declared in the scopes around, and
all slots in the history are below the next one. Adding one occurrence to the history is one lemma
(`Allotted.concat`), and expressions and statements add theirs one after the other (`WordOp.Allots`).

## Main statement

* `slots_faithful`: declarations share a slot exactly if they declare the same variable, a slot is used
  within the scope of its variable only, and names get the slot of the nearest variable of that name.
-/

namespace Scriptlet

/-! ## Occurrences of variables -/

/-- What a place in a program does to a variable. -/
inductive Role where
  | declare
  | fetch
  | store
deriving DecidableEq, Repr

/-- A place in a program where a variable occurs. Scopes have numbers: the outermost one is 0, and blocks
are numbered from 1 in the order in which a walk over the program opens them. -/
structure Occurrence where
  role : Role
  name : String
  /-- The innermost scope around the place. -/
  scope : Nat
  /-- The scopes around that one, from the inside to the outside. -/
  outer : List Nat
deriving DecidableEq, Repr

namespace Occurrence

/-- All scopes around the place, from the inside to the outside. -/
def scopes (o : Occurrence) : List Nat :=
  o.scope :: o.outer

/-- The instruction that tells the slot. -/
def op (o : Occurrence) : WordOp :=
  match o.role with
  | .declare => .setVar
  | .fetch => .getVar
  | .store => .setVar

/-- Is this a declaration of the name in the scope? -/
def declares (o : Occurrence) (name : String) (scope : Nat) : Bool :=
  o.role == .declare && o.name == name && o.scope == scope

end Occurrence

/-- The occurrences in an expression, in the order of evaluation. -/
def Expr.occurrences (scope : Nat) (outer : List Nat) : Expr → List Occurrence
  | literal _ _ => []
  | group _ inner => inner.occurrences scope outer
  | unary _ _ operand => operand.occurrences scope outer
  | binary _ _ left right => left.occurrences scope outer ++ right.occurrences scope outer
  | ident _ name => [{ role := .fetch, name, scope, outer }]
  | assign _ name value =>
      value.occurrences scope outer ++ [{ role := .store, name, scope, outer }]
  | logical _ _ left right => left.occurrences scope outer ++ right.occurrences scope outer

mutual

/-- The number of blocks in a statement. -/
def Stmt.blockCount : Stmt → Nat
  | .print _ _ => 0
  | .expression _ _ => 0
  | .var _ _ _ => 0
  | .block _ body => 1 + Stmt.blockCountOfAll body
  | .ifThen _ _ yes none => yes.blockCount
  | .ifThen _ _ yes (some no) => yes.blockCount + no.blockCount
  | .whileDo _ _ body => body.blockCount

/-- The number of blocks in a sequence of statements. -/
def Stmt.blockCountOfAll : List Stmt → Nat
  | [] => 0
  | st :: rest => st.blockCount + Stmt.blockCountOfAll rest

end

mutual

/-- The occurrences in a statement that stands in some scopes, where `opened` scopes have been opened
before. Only blocks open a scope: a branch and the body of a loop stand in the scope of the statement
that they belong to. -/
def Stmt.occurrences (scope : Nat) (outer : List Nat) (opened : Nat) : Stmt → List Occurrence
  | .print _ value => value.occurrences scope outer
  | .expression _ value => value.occurrences scope outer
  | .var _ name none => [{ role := .declare, name, scope, outer }]
  | .var _ name (some initial) =>
      initial.occurrences scope outer ++ [{ role := .declare, name, scope, outer }]
  | .block _ body => Stmt.occurrencesOfAll opened (scope :: outer) (opened + 1) body
  | .ifThen _ condition yes none =>
      condition.occurrences scope outer ++ yes.occurrences scope outer opened
  | .ifThen _ condition yes (some no) =>
      condition.occurrences scope outer
        ++ (yes.occurrences scope outer opened
          ++ no.occurrences scope outer (opened + yes.blockCount))
  | .whileDo _ condition body =>
      condition.occurrences scope outer ++ body.occurrences scope outer opened

/-- The occurrences in a sequence of statements. -/
def Stmt.occurrencesOfAll (scope : Nat) (outer : List Nat) (opened : Nat) :
    List Stmt → List Occurrence
  | [] => []
  | st :: rest =>
      st.occurrences scope outer opened
        ++ Stmt.occurrencesOfAll scope outer (opened + st.blockCount) rest

end

/-- The occurrences of variables in a program. -/
def Program.occurrences (p : Program) : List Occurrence :=
  Stmt.occurrencesOfAll 0 [] 1 p

theorem Stmt.blockCount_ifThen (line : Nat) (condition : Expr) (yes : Stmt) (no : Option Stmt) :
    (Stmt.ifThen line condition yes no).blockCount = yes.blockCount + no.elim 0 Stmt.blockCount := by
  cases no with
  | none => rw [Stmt.blockCount, Option.elim_none, Nat.add_zero]
  | some no =>
    rw [Stmt.blockCount]
    rfl

/-- The blocks of the first branch are counted in front of those of the second. -/
theorem Stmt.occurrences_ifThen (scope : Nat) (outer : List Nat) (opened line : Nat)
    (condition : Expr) (yes : Stmt) (no : Option Stmt) :
    (Stmt.ifThen line condition yes no).occurrences scope outer opened
      = condition.occurrences scope outer ++ (yes.occurrences scope outer opened
        ++ no.elim [] (Stmt.occurrences scope outer (opened + yes.blockCount))) := by
  cases no with
  | none => rw [Stmt.occurrences, Option.elim_none, List.append_nil]
  | some no =>
    rw [Stmt.occurrences]
    rfl

/-! ## Slots of occurrences -/

/-- Occurrences in the order of the walk, each with the slot in its instruction. -/
abbrev Allotment := List (Occurrence × Nat)

namespace Allotment

/-- The slot with which a name has been declared in a scope. -/
def declared? (before : Allotment) (name : String) (scope : Nat) : Option Nat :=
  (before.find? fun d => d.1.declares name scope).map Prod.snd

/-- The slot of the variable that a name stands for: the name is looked for in the given scopes, one
after the other, among what they have declared before. -/
def nearest? (before : Allotment) (name : String) (scopes : List Nat) : Option Nat :=
  scopes.findSome? (before.declared? name)

variable {history : Allotment} {name : String} {scope slot : Nat} {d : Occurrence × Nat}

/-- A slot that was allotted in a scope has a declaration in it. -/
theorem exists_of_declared? (h : history.declared? name scope = some slot) :
    ∃ d ∈ history, d.1.role = .declare ∧ d.1.name = name ∧ d.1.scope = scope ∧ d.2 = slot := by
  obtain ⟨d, hfind, hslot⟩ := Option.map_eq_some_iff.mp h
  have hdeclares := List.find?_some hfind
  simp only [Occurrence.declares, Bool.and_eq_true, beq_iff_eq] at hdeclares
  obtain ⟨⟨hrole, hname⟩, hscope⟩ := hdeclares
  exact ⟨d, List.mem_of_find?_eq_some hfind, hrole, hname, hscope, hslot⟩

theorem declared?_eq_none :
    history.declared? name scope = none ↔ ∀ d ∈ history, d.1.declares name scope = false := by
  simp [declared?]

/-- What is known of a name in a scope changes with its first declaration only. -/
theorem declared?_concat (history : Allotment) (d : Occurrence × Nat) (name : String) (scope : Nat) :
    declared? (history ++ [d]) name scope
      = (history.declared? name scope).or (if d.1.declares name scope then some d.2 else none) := by
  rw [declared?, List.find?_append, Option.map_or]
  cases hd : d.1.declares name scope <;> simp [declared?, hd]

/-- A scope of the generator holds the slots of the variables that have been declared in a scope of the
program. -/
def Fills (history : Allotment) (scope : Nat) (slots : Scope Nat) : Prop :=
  ∀ name : String, slots[name]? = history.declared? name scope

variable {scopes : List Nat} {chain : List (Scope Nat)}

/-- Looking a name up in the generator's scopes finds the nearest variable. -/
theorem findSome?_eq_nearest? (h : List.Forall₂ history.Fills scopes chain) (name : String) :
    (chain.findSome? fun slots => slots[name]?) = history.nearest? name scopes := by
  induction h with
  | nil => rfl
  | cons hhere _ ih => rw [List.findSome?_cons, hhere, ih, nearest?, nearest?, List.findSome?_cons]

/-- An occurrence that declares nothing new leaves scopes as they are. -/
theorem forall₂_fills_concat (h : List.Forall₂ history.Fills scopes chain)
    (hd : ∀ scope ∈ scopes, ∀ name, d.1.declares name scope = true →
      history.declared? name scope = some d.2) :
    List.Forall₂ (Fills (history ++ [d])) scopes chain := by
  induction h with
  | nil => exact .nil
  | @cons scope slots scopes chain hhere _ ih =>
    rw [List.forall_mem_cons] at hd
    refine .cons ?_ (ih hd.2)
    intro name
    rw [hhere name, declared?_concat]
    cases hdeclares : d.1.declares name scope with
    | false => simp
    | true => rw [hd.1 name hdeclares, Option.some_or]

end Allotment

/-- The generator stands in some scopes. It has opened `opened` scopes so far, and has allotted slots to
the occurrences of a history. -/
structure Allotted (scope : Nat) (outer : List Nat) (opened : Nat) (history : Allotment)
    (vars : WordVars) : Prop where
  fills : List.Forall₂ history.Fills (scope :: outer) vars.scopes.all
  nodup : (scope :: outer).Nodup
  open_lt : ∀ n ∈ scope :: outer, n < opened
  scope_lt : ∀ d ∈ history, d.1.scope < opened
  slot_lt : ∀ d ∈ history, d.2 < vars.next
  apart : ∀ d ∈ history, ∀ d' ∈ history, d.1.role = .declare → d'.1.role = .declare →
    (d.2 = d'.2 ↔ d.1.name = d'.1.name ∧ d.1.scope = d'.1.scope)
  within : history.Pairwise fun d d' =>
    d.1.role = .declare → d'.2 = d.2 → d.1.scope ∈ d'.1.scopes
  nearest : ∀ front d back, history = front ++ d :: back → d.1.role ≠ .declare →
    Allotment.nearest? front d.1.name d.1.scopes = some d.2

namespace Allotted

variable {scope : Nat} {outer : List Nat} {opened : Nat} {history : Allotment} {vars : WordVars}
  {role : Role} {name : String} {slot : Nat}

/-- Slots of variables declared so far are told apart by the variables. -/
theorem eq_slot_iff (h : Allotted scope outer opened history vars) {n : Nat}
    (hdeclared : history.declared? name n = some slot) {d : Occurrence × Nat} (hd : d ∈ history)
    (hrole : d.1.role = .declare) : d.2 = slot ↔ d.1.name = name ∧ d.1.scope = n := by
  obtain ⟨first, hmem, hfirst, rfl, rfl, rfl⟩ := Allotment.exists_of_declared? hdeclared
  exact h.apart d hd first hmem hrole hfirst

/-- One more occurrence, in the scopes in which the generator stands. -/
theorem concat (h : Allotted scope outer opened history vars) {vars' : WordVars}
    (hfills : List.Forall₂ (Allotment.Fills (history ++ [(⟨role, name, scope, outer⟩, slot)]))
      (scope :: outer) vars'.scopes.all)
    (hnext : vars.next ≤ vars'.next) (hslot : slot < vars'.next)
    (hapart : role = .declare → ∀ d ∈ history, d.1.role = .declare →
      (d.2 = slot ↔ d.1.name = name ∧ d.1.scope = scope))
    (hnearest : role ≠ .declare → history.nearest? name (scope :: outer) = some slot) :
    Allotted scope outer opened (history ++ [(⟨role, name, scope, outer⟩, slot)]) vars' := by
  constructor
  · exact hfills
  · exact h.nodup
  · exact h.open_lt
  · rw [List.forall_mem_append, List.forall_mem_singleton]
    exact ⟨h.scope_lt, h.open_lt scope List.mem_cons_self⟩
  · rw [List.forall_mem_append, List.forall_mem_singleton]
    exact ⟨fun d hd => Nat.lt_of_lt_of_le (h.slot_lt d hd) hnext, hslot⟩
  -- of two declarations, none, one or both are the new one
  · intro d hd d' hd' hrole hrole'
    rcases List.mem_append.mp hd with hd | hd <;> rcases List.mem_append.mp hd' with hd' | hd'
    · exact h.apart d hd d' hd' hrole hrole'
    · cases List.mem_singleton.mp hd'
      exact hapart hrole' d hd hrole
    · cases List.mem_singleton.mp hd
      rw [eq_comm, hapart hrole d' hd' hrole', eq_comm, @eq_comm _ d'.1.scope]
    · cases List.mem_singleton.mp hd
      cases List.mem_singleton.mp hd'
      simp
  · rw [List.pairwise_append]
    refine ⟨h.within, List.pairwise_singleton _ _, ?_⟩
    intro d hd d' hd' hrole hsame
    cases List.mem_singleton.mp hd'
    by_cases hdeclare : role = .declare
    · -- a declaration shares the slot of its own variable only
      rw [((hapart hdeclare d hd hrole).mp hsame.symm).2]
      exact List.mem_cons_self
    · -- the slot was found in a scope around, in which `d` has declared it
      obtain ⟨n, hn, hdeclared⟩ := List.exists_of_findSome?_eq_some (hnearest hdeclare)
      rw [((h.eq_slot_iff hdeclared hd hrole).mp hsame.symm).2]
      exact hn
  · intro front d back hsplit hrole
    rcases List.eq_nil_or_concat back with rfl | ⟨back, last, rfl⟩
    · -- the new occurrence itself, with all of the history in front of it
      obtain ⟨rfl, hlast⟩ := List.append_inj' hsplit rfl
      cases hlast
      exact hnearest hrole
    · rw [List.concat_eq_append, ← List.cons_append, ← List.append_assoc] at hsplit
      obtain ⟨hfront, -⟩ := List.append_inj' hsplit rfl
      exact h.nearest front d back hfront hrole

/-- A use of a variable, with the slot that is found for its name. -/
theorem use (h : Allotted scope outer opened history vars) (hrole : role ≠ .declare)
    (hfind : vars.scopes.find? name = some slot) :
    Allotted scope outer opened (history ++ [(⟨role, name, scope, outer⟩, slot)]) vars := by
  have hnearest : history.nearest? name (scope :: outer) = some slot := by
    rw [← Allotment.findSome?_eq_nearest? h.fills]
    exact hfind
  refine h.concat ?_ (Nat.le_refl _) ?_ (fun hdeclare => absurd hdeclare hrole) (fun _ => hnearest)
  · apply Allotment.forall₂_fills_concat h.fills
    intro n _ other hdeclares
    simp [Occurrence.declares, hrole] at hdeclares
  · obtain ⟨n, -, hdeclared⟩ := List.exists_of_findSome?_eq_some hnearest
    obtain ⟨d, hd, -, -, -, rfl⟩ := Allotment.exists_of_declared? hdeclared
    exact h.slot_lt d hd

/-- The innermost scope holds what was declared in it. -/
theorem declared?_inner (h : Allotted scope outer opened history vars) (name : String) :
    vars.scopes.inner[name]? = history.declared? name scope := by
  obtain ⟨hinner, -⟩ := List.forall₂_cons.mp h.fills
  exact hinner name

/-- A declaration of a variable that the innermost scope has already. -/
theorem redeclare (h : Allotted scope outer opened history vars)
    (hinner : vars.scopes.inner[name]? = some slot) :
    Allotted scope outer opened (history ++ [({ role := .declare, name, scope, outer }, slot)])
      vars := by
  have hdeclared : history.declared? name scope = some slot := by rw [← h.declared?_inner, hinner]
  refine h.concat ?_ (Nat.le_refl _) ?_ ?_ (fun hrole => absurd rfl hrole)
  · apply Allotment.forall₂_fills_concat h.fills
    intro n _ other hdeclares
    simp only [Occurrence.declares, Bool.and_eq_true, beq_iff_eq] at hdeclares
    obtain ⟨⟨-, rfl⟩, rfl⟩ := hdeclares
    exact hdeclared
  · obtain ⟨d, hd, -, -, -, rfl⟩ := Allotment.exists_of_declared? hdeclared
    exact h.slot_lt d hd
  · intro _ d hd hrole
    exact h.eq_slot_iff hdeclared hd hrole

/-- A declaration of a new variable, with the next slot. -/
theorem declare (h : Allotted scope outer opened history vars)
    (hinner : vars.scopes.inner[name]? = none) :
    Allotted scope outer opened
      (history ++ [({ role := .declare, name, scope, outer }, vars.next)])
      { scopes := vars.scopes.define name vars.next, next := vars.next + 1 } := by
  have hnone : history.declared? name scope = none := by rw [← h.declared?_inner, hinner]
  obtain ⟨hhere, houter⟩ := List.forall₂_cons.mp h.fills
  obtain ⟨hscope, -⟩ := List.nodup_cons.mp h.nodup
  refine h.concat (.cons ?_ ?_) (Nat.le_succ _) (Nat.lt_succ_self _) ?_ (fun hrole => absurd rfl hrole)
  -- the new name is bound to the next slot, and the others as before
  · intro other
    show (vars.scopes.inner.insert name vars.next)[other]? = _
    rw [Scope.getElem?_insert, Allotment.declared?_concat]
    by_cases hother : name = other
    · subst hother
      simp [hnone, Occurrence.declares]
    · simp [Occurrence.declares, hother, hhere other]
  · -- the scopes around are other scopes
    apply Allotment.forall₂_fills_concat houter
    intro n hn other hdeclares
    simp only [Occurrence.declares, Bool.and_eq_true, beq_iff_eq] at hdeclares
    obtain ⟨-, rfl⟩ := hdeclares
    exact absurd hn hscope
  -- every slot so far is smaller than the next one, so the new one is shared with none
  · intro _ d hd hrole
    have hlt := h.slot_lt d hd
    have hother := Allotment.declared?_eq_none.mp hnone d hd
    constructor
    · intro heq
      exact absurd heq (Nat.ne_of_lt hlt)
    · rintro ⟨hname, hscope⟩
      simp [Occurrence.declares, hrole, hname, hscope] at hother

/-- A block opens a scope in which nothing has been declared. -/
theorem enter (h : Allotted scope outer opened history vars) :
    Allotted opened (scope :: outer) (opened + 1) history (WordOp.backend.enter vars) := by
  constructor
  · refine .cons ?_ h.fills
    intro name
    -- all declarations so far are in scopes with smaller numbers
    have hnone : history.declared? name opened = none := by
      rw [Allotment.declared?_eq_none]
      intro d hd
      have hlt := h.scope_lt d hd
      simp [Occurrence.declares, Nat.ne_of_lt hlt]
    rw [hnone]
    exact Std.TreeMap.getElem?_emptyc
  · rw [List.nodup_cons]
    exact ⟨fun hmem => Nat.lt_irrefl _ (h.open_lt opened hmem), h.nodup⟩
  · rw [List.forall_mem_cons]
    exact ⟨Nat.lt_succ_self _, fun n hn => Nat.lt_succ_of_lt (h.open_lt n hn)⟩
  · exact fun d hd => Nat.lt_succ_of_lt (h.scope_lt d hd)
  · exact h.slot_lt
  · exact h.apart
  · exact h.within
  · exact h.nearest

/-- The end of a block closes its scope, and the slots in use stay in use. -/
theorem leave {inner : Nat} (h : Allotted inner (scope :: outer) opened history vars) :
    Allotted scope outer opened history (WordOp.backend.leave vars).2 := by
  constructor
  · -- there is a scope around the block, so the innermost one is given up
    obtain ⟨-, houter⟩ := List.forall₂_cons.mp h.fills
    obtain ⟨⟨here, around⟩, next⟩ := vars
    cases houter with
    | cons hhere hrest => exact .cons hhere hrest
  · exact (List.nodup_cons.mp h.nodup).2
  · exact fun n hn => h.open_lt n (List.mem_cons_of_mem _ hn)
  · exact h.scope_lt
  · exact h.slot_lt
  · exact h.apart
  · exact h.within
  · exact h.nearest

end Allotted

/-! ## Instructions that name slots -/

namespace WordOp

/-- Is the operand of the instruction a slot? -/
def namesSlot (op : WordOp) : Bool :=
  op == getVar || op == setVar

theorem operand?_of_namesSlot (r : Record WordOp) (h : r.op.namesSlot = true) :
    r.operand? = some r.instr.arg := by
  have hlayout : Opcode.layout r.op = .word := by
    simp only [namesSlot, Bool.or_eq_true, beq_iff_eq] at h
    rcases h with h | h <;> rw [h] <;> rfl
  rw [Record.operand?, hlayout]

/-- Only accesses to variables name slots. -/
theorem backend_unpicked : backend.Unpicked namesSlot where
  unset := rfl
  unary op := by cases op <;> rfl
  binary op := by cases op <;> decide
  print := rfl
  pop := rfl
  keep := by decide
  drop := by decide
  jump := rfl
  jumpUnless := rfl
  lead := by decide
  jumpIf := rfl
  loop := rfl
  stop := rfl

/-- From the state `s`, code allots slots to some occurrences, opens scopes up to a number, and leads to
the state `t`. -/
def Allots (os : List Occurrence) (code : Code WordOp) (scope : Nat) (outer : List Nat)
    (opened : Nat) (s : GenState WordVars) (opened' : Nat) (t : GenState WordVars) : Prop :=
  code.Tracks namesSlot Occurrence.op (fun history => Allotted scope outer opened history s.vars)
    (fun history => Allotted scope outer opened' history t.vars) os

section Walk

variable {s t : GenState WordVars} {code : Code WordOp} (scope : Nat) (outer : List Nat)
  (opened : Nat)

theorem allots_literal {v : Value} (h : backend.literal v s = .ok (code, t)) :
    Allots [] code scope outer opened s opened t := by
  obtain ⟨word, -, rfl, rfl⟩ := literal_ok h
  exact Code.Tracks.nothing rfl

/-- Reading a variable names the slot that was allotted to it. -/
theorem allots_fetch {name : String} (h : backend.fetch name s = .ok (code, t)) :
    Allots [⟨.fetch, name, scope, outer⟩] code scope outer opened s opened t := by
  obtain ⟨slot, hfind, rfl, rfl⟩ := fetch_ok h
  exact Code.Tracks.single rfl fun history hs => hs.use (by decide) hfind

theorem allots_store {name : String} (h : backend.store name s = .ok (code, t)) :
    Allots [⟨.store, name, scope, outer⟩] code scope outer opened s opened t := by
  obtain ⟨slot, hfind, rfl, rfl⟩ := store_ok h
  exact Code.Tracks.single rfl fun history hs => hs.use (by decide) hfind

/-- A declaration allots a new slot, unless the scope has one for the name. -/
theorem allots_declare {name : String} (h : backend.declare name s = .ok (code, t)) :
    Allots [⟨.declare, name, scope, outer⟩] code scope outer opened s opened t := by
  obtain ⟨slot, hallocate, rfl⟩ := declare_ok h
  refine Code.Tracks.single rfl fun history hs => ?_
  rcases WordVars.allocate_ok hallocate with ⟨hknown, rfl⟩ | ⟨hnew, -, rfl, rfl⟩
  · exact hs.redeclare hknown
  · exact hs.declare hnew

/-- An expression allots slots to its occurrences. -/
theorem allots_expr {e : Expr} {kind : StaticKind} (h : backend.Emits s e kind code t) :
    Allots (e.occurrences scope outer) code scope outer opened s opened t := by
  -- on how the code was emitted, operands first
  induction h with
  | literal _ hcode =>
    have hallots := allots_literal scope outer opened hcode
    exact hallots
  | group _ ih => exact ih
  | @unary _ _ _ op _ _ _ _ _ _ _ ih =>
    exact ih.append_plain (List.forall_mem_singleton.mpr (backend_unpicked.unary op))
  | @binary _ _ _ line op _ _ _ _ _ rightCode _ _ _ _ _ ihLeft ihRight =>
    exact ihLeft.append (ihRight.append_plain (backend_unpicked.binary op))
  | ident _ hcode =>
    have hallots := allots_fetch scope outer opened hcode
    exact hallots
  | assign _ _ hstore ih =>
    have hallots := allots_store scope outer opened hstore
    exact ih.append hallots
  | @logical _ _ _ _ op _ _ _ _ leftCode rightCode _ _ _ _ hskipped _ ihLeft ihRight =>
    subst hskipped
    have hallots := ihLeft.append ihRight
    exact hallots.congr (backend_unpicked.picked_logical op leftCode rightCode)

end Walk

mutual

/-- A statement allots slots to its occurrences, and opens a scope for each of its blocks. -/
theorem allots_stmt {s t : GenState WordVars} {st : Stmt} {code : Code WordOp} (scope : Nat)
    (outer : List Nat) (opened : Nat) (h : backend.EmitsStmt s st code t) :
    Allots (st.occurrences scope outer opened) code scope outer opened s (opened + st.blockCount)
      t := by
  cases h with
  | print hvalue _ =>
    rw [Stmt.occurrences, Stmt.blockCount]
    have hallots := allots_expr scope outer opened hvalue
    exact hallots.append_plain (by decide)
  | expression hvalue _ =>
    rw [Stmt.occurrences, Stmt.blockCount]
    have hallots := allots_expr scope outer opened hvalue
    exact hallots.append_plain (by decide)
  | var hvalue _ hdeclare =>
    rw [Stmt.occurrences, Stmt.blockCount]
    have hallots := allots_declare scope outer opened hdeclare
    exact (allots_expr scope outer opened hvalue).append hallots
  | varUnset _ hdeclare =>
    rw [Stmt.occurrences, Stmt.blockCount]
    have hallots := allots_declare scope outer opened hdeclare
    apply hallots.congr
    rw [Code.picked_append, backend_unpicked.picked_unset, List.nil_append]
  | @block _ t line body code hbody _ =>
    rw [Stmt.occurrences, Stmt.blockCount, ← Nat.add_assoc]
    -- The body stands in a scope that is numbered by the scopes opened before.
    intro history hs
    obtain ⟨more, hos, hcode, ht⟩ :=
      allots_all opened (scope :: outer) (opened + 1) hbody history hs.enter
    refine ⟨more, hos, ?_, ht.leave⟩
    rw [Code.picked_append, backend_unpicked.picked_pops, List.append_nil]
    exact hcode
  | @ifThen _ _ _ _ _ _ yes _ _ _ _ _ _ _ hcondition _ hyes hno hdrop _ _ _ =>
    subst hdrop
    -- The other branch comes second in the walk, so its blocks are numbered after those of the first.
    have hallotsYes := allots_stmt scope outer opened hyes
    have hallotsNo := allots_else scope outer (opened + yes.blockCount) hno
    have hallots := (allots_expr scope outer opened hcondition).append (hallotsYes.append hallotsNo)
    rw [Stmt.occurrences_ifThen, Stmt.blockCount_ifThen, ← Nat.add_assoc]
    exact hallots.congr (backend_unpicked.picked_ifThen _ _ _)
  | whileDo hcondition _ hbody hdrop _ _ _ =>
    subst hdrop
    have hallotsBody := allots_stmt scope outer opened hbody
    have hallots := (allots_expr scope outer opened hcondition).append hallotsBody
    rw [Stmt.occurrences, Stmt.blockCount]
    exact hallots.congr (backend_unpicked.picked_whileDo _ _)

/-- An else branch allots slots behind the first branch. -/
theorem allots_else {s t : GenState WordVars} {line : Nat} {no : Option Stmt} {code : Code WordOp}
    (scope : Nat) (outer : List Nat) (opened : Nat) (h : backend.EmitsElse line s no code t) :
    Allots (no.elim [] (Stmt.occurrences scope outer opened)) code scope outer opened s
      (opened + no.elim 0 Stmt.blockCount) t := by
  cases h with
  | none => exact Code.Tracks.nothing rfl
  | some hno =>
    have hallots := allots_stmt scope outer opened hno
    exact hallots

/-- Statements allot slots one after the other. -/
theorem allots_all {s t : GenState WordVars} {sts : List Stmt} {code : Code WordOp}
    (scope : Nat) (outer : List Nat) (opened : Nat) (h : backend.EmitsAll s sts code t) :
    Allots (Stmt.occurrencesOfAll scope outer opened sts) code scope outer opened s
      (opened + Stmt.blockCountOfAll sts) t := by
  cases h with
  | nil =>
    rw [Stmt.occurrencesOfAll, Stmt.blockCountOfAll]
    exact Code.Tracks.nothing rfl
  | cons hfirst hrest =>
    rw [Stmt.occurrencesOfAll, Stmt.blockCountOfAll, ← Nat.add_assoc]
    exact (allots_stmt scope outer opened hfirst).append (allots_all scope outer _ hrest)

end

end WordOp

/-! ## Programs -/

/-- Before the walk the outermost scope is open, and nothing is declared. -/
theorem Allotted.start : Allotted 0 [] 1 [] WordOp.backend.start.vars := by
  constructor
  · refine .cons ?_ .nil
    intro name
    exact Std.TreeMap.getElem?_emptyc
  · exact List.pairwise_singleton _ 0
  · simp
  · simp
  · simp
  · simp
  · exact .nil
  · intro front d back hsplit
    simp at hsplit

/-- The slots in the code of a program are those of its variables, for programs of every shape. The
instructions that name slots are those of the occurrences of variables, in their order. Two
declarations have the same slot exactly if they declare the same name in the same scope. From a
declaration on, its slot occurs in the scope of the declaration only, so it is not used again when the
block has ended. Every other occurrence has the slot of the nearest scope, from the inside to the
outside, in which its name has been declared before. -/
theorem slots_faithful {p : Program} {c : Chunk} (hc : Target.word.generate p = .ok c) :
    ∃ (records : List (Record WordOp)) (allotted : Allotment),
      c.decode = .ok records ∧
      (records.filter fun r => r.op.namesSlot).map (fun r => (r.op, r.operand?))
        = allotted.map (fun d => (d.1.op, some (d.2 : Int))) ∧
      allotted.map Prod.fst = p.occurrences ∧
      (∀ d ∈ allotted, ∀ d' ∈ allotted, d.1.role = .declare → d'.1.role = .declare →
        (d.2 = d'.2 ↔ d.1.name = d'.1.name ∧ d.1.scope = d'.1.scope)) ∧
      (allotted.Pairwise fun d d' =>
        d.1.role = .declare → d'.2 = d.2 → d.1.scope ∈ d'.1.scopes) ∧
      ∀ front d back, allotted = front ++ d :: back → d.1.role ≠ .declare →
        Allotment.nearest? front d.1.name d.1.scopes = some d.2 := by
  obtain ⟨code, t, hemits, hadds, rfl⟩ := WordOp.backend_lawful.program_eq_ok hc
  have hdecode := (WordOp.backend_lawful.wellFormed_ofCode hadds t.line).decodes
  have hallots := WordOp.allots_all 0 [] 1 hemits
  obtain ⟨allotted, hos, ht, hrecords⟩ := hallots.exists_records Allotted.start
    WordOp.operand?_of_namesSlot WordOp.backend_unpicked.stop t.pool t.line
  exact ⟨_, allotted, hdecode, hrecords, hos, ht.apart, ht.within, ht.nearest⟩

/-- A name declared twice in the outermost scope, shadowed in a block from the middle of it on, declared
by a branch in the same block, and used again behind the block; a second block declares the name anew. -/
theorem slots_faithful_shadowing :
    let p : Program :=
      [.var 1 "a" none, .var 1 "a" (some (.ident 1 "a")),
        .block 2
          [.expression 2 (.assign 2 "a" (.literal 2 (.int 1))),
            .ifThen 3 (.ident 3 "a") (.var 3 "a" (some (.ident 3 "a"))) none,
            .print 4 (.ident 4 "a")],
        .print 5 (.ident 5 "a"),
        .block 6 [.var 6 "a" none]]
    ∃ (c : Chunk) (records : List (Record WordOp)) (allotted : Allotment),
      Target.word.generate p = .ok c ∧ c.decode = .ok records ∧
      (records.filter fun r => r.op.namesSlot).map (fun r => (r.op, r.operand?))
        = allotted.map (fun d => (d.1.op, some (d.2 : Int))) ∧
      allotted.map Prod.fst
        = [⟨.declare, "a", 0, []⟩, ⟨.fetch, "a", 0, []⟩, ⟨.declare, "a", 0, []⟩,
          ⟨.store, "a", 1, [0]⟩, ⟨.fetch, "a", 1, [0]⟩, ⟨.fetch, "a", 1, [0]⟩,
          ⟨.declare, "a", 1, [0]⟩, ⟨.fetch, "a", 1, [0]⟩, ⟨.fetch, "a", 0, []⟩,
          ⟨.declare, "a", 2, [0]⟩] ∧
      (∀ d ∈ allotted, ∀ d' ∈ allotted, d.1.role = .declare → d'.1.role = .declare →
        (d.2 = d'.2 ↔ d.1.name = d'.1.name ∧ d.1.scope = d'.1.scope)) ∧
      (allotted.Pairwise fun d d' =>
        d.1.role = .declare → d'.2 = d.2 → d.1.scope ∈ d'.1.scopes) ∧
      ∀ front d back, allotted = front ++ d :: back → d.1.role ≠ .declare →
        Allotment.nearest? front d.1.name d.1.scopes = some d.2 := by
  intro p
  have hok : (Target.word.generate p).isOk = true := by decide +kernel
  cases hc : Target.word.generate p with
  | error e =>
    rw [hc] at hok
    cases hok
  | ok c =>
    obtain ⟨records, allotted, hdecode, hrecords, hos, hslots⟩ := slots_faithful hc
    exact ⟨c, records, allotted, rfl, hdecode, hrecords, hos, hslots⟩

end Scriptlet
