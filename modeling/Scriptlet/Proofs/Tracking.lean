import Scriptlet.Proofs.Emission

/-! # Numbers in generated code

Some instructions carry a number that depends on all that has been generated before: the place of a
constant in the pool, or the slot of a variable. What such a number has to be is said about a history,
the list of the items that numbers have been given to so far, each with its number. `Code.Tracks` says
that code goes on with a history: which items its instructions belong to, and what holds of the history
with these items behind it.

The walk over a program puts instructions of its own between those of the backend, for operations and
for control flow. None of these carries a number (`Backend.Unpicked`), so code in sequence, and code
with jumps around it, goes on with the history as its parts do one after the other.
-/

namespace Scriptlet

variable {ω ν ι : Type} {pick : ω → Bool}

/-! ## Instructions of a kind -/

/-- The instructions of some kind, with their arguments. -/
def Code.picked (pick : ω → Bool) (code : Code ω) : List (ω × Int) :=
  (code.filter fun i => pick i.op).map fun i => (i.op, i.arg)

namespace Code

theorem picked_append (front back : Code ω) :
    picked pick (front ++ back) = picked pick front ++ picked pick back := by
  simp [picked]

/-- Instructions of another kind may stand anywhere in between. -/
theorem picked_onLine {line : Nat} {ops : List (ω × Int)} (h : ∀ p ∈ ops, pick p.1 = false) :
    picked pick (onLine line ops) = [] := by
  have hfilter : (onLine line ops).filter (fun i => pick i.op) = [] := by
    rw [List.filter_eq_nil_iff]
    intro i hi
    obtain ⟨p, hp, rfl⟩ := List.mem_map.mp hi
    simpa using h p hp
  rw [picked, hfilter]
  rfl

theorem picked_plain {line : Nat} {ops : List ω} (h : ∀ op ∈ ops, pick op = false) :
    picked pick (plain line ops) = [] := by
  apply picked_onLine
  intro p hp
  obtain ⟨op, hop, rfl⟩ := List.mem_map.mp hp
  exact h op hop

/-- The records of a kind that has operands are those of the instructions of this kind. -/
theorem picked_records [Opcode ω]
    (hoperand : ∀ r : Record ω, pick r.op = true → r.operand? = some r.instr.arg)
    (pool : Pool) (offset : Nat) (code : Code ω) :
    ((code.records pool offset).filter fun r => pick r.op).map (fun r => (r.op, r.operand?))
      = (code.picked pick).map fun d => (d.1, some d.2) := by
  induction code generalizing offset with
  | nil => rfl
  | cons i rest ih =>
    have hrest := ih (offset + i.width)
    have hop : (i.record pool offset).op = i.op := rfl
    rw [records, List.filter_cons, hop]
    rw [picked, List.filter_cons]
    cases hpick : pick i.op with
    | false => exact hrest
    | true =>
      have hoperand : (i.record pool offset).operand? = some i.arg := hoperand _ hpick
      simp only [if_true, List.map_cons, hop, hoperand]
      exact congrArg _ hrest

end Code

/-! ## Histories -/

/-- Behind any history as in `Before`, the instructions of some kind are those of the items, in their
order, each with a number as its argument; and the history with these items is one as in `After`. -/
def Code.Tracks (pick : ω → Bool) (op : ι → ω) (Before After : List (ι × Nat) → Prop)
    (items : List ι) (code : Code ω) : Prop :=
  ∀ history, Before history →
    ∃ more : List (ι × Nat), more.map Prod.fst = items ∧
      code.picked pick = more.map (fun d => (op d.1, (d.2 : Int))) ∧ After (history ++ more)

namespace Code.Tracks

variable {op : ι → ω} {Before Between After : List (ι × Nat) → Prop} {items items' : List ι}
  {code code' : Code ω}

/-- Only the instructions of the kind count. -/
theorem congr (h : code.Tracks pick op Before After items)
    (hcode : picked pick code' = picked pick code) : code'.Tracks pick op Before After items := by
  intro history hbefore
  rw [hcode]
  exact h history hbefore

/-- Code without instructions of the kind leaves the history as it is. -/
theorem nothing (hcode : code.picked pick = []) : code.Tracks pick op Before Before [] := by
  intro history hbefore
  refine ⟨[], rfl, hcode, ?_⟩
  rw [List.append_nil]
  exact hbefore

/-- One instruction of the kind adds one item to the history. -/
theorem single {item : ι} {n : Nat} (hcode : code.picked pick = [(op item, (n : Int))])
    (hafter : ∀ history, Before history → After (history ++ [(item, n)])) :
    code.Tracks pick op Before After [item] := by
  intro history hbefore
  exact ⟨[(item, n)], rfl, hcode, hafter history hbefore⟩

/-- Code in sequence goes on with the history part by part. -/
theorem append (h : code.Tracks pick op Before Between items)
    (h' : code'.Tracks pick op Between After items') :
    (code ++ code').Tracks pick op Before After (items ++ items') := by
  intro history hbefore
  obtain ⟨more, hitems, hcode, hbetween⟩ := h history hbefore
  obtain ⟨more', hitems', hcode', hafter⟩ := h' (history ++ more) hbetween
  refine ⟨more ++ more', ?_, ?_, ?_⟩
  · rw [List.map_append, hitems, hitems']
  · rw [picked_append, hcode, hcode', List.map_append]
  · rw [← List.append_assoc]
    exact hafter

/-- Instructions without numbers may follow. -/
theorem append_plain {line : Nat} {ops : List ω} (h : code.Tracks pick op Before After items)
    (hops : ∀ o ∈ ops, pick o = false) :
    (code ++ Code.plain line ops).Tracks pick op Before After items := by
  apply h.congr
  rw [picked_append, picked_plain hops, List.append_nil]

/-- The records of a whole program are those of the items that it has added to an empty history. The
end of the program is none of them. -/
theorem exists_records [Opcode ω] (h : code.Tracks pick op Before After items) (hstart : Before [])
    (hoperand : ∀ r : Record ω, pick r.op = true → r.operand? = some r.instr.arg) {stop : ω}
    (hstop : pick stop = false) (pool : Pool) (line : Nat) :
    ∃ given : List (ι × Nat), given.map Prod.fst = items ∧ After given ∧
      (((code ++ Code.plain line [stop]).records pool 0).filter fun r => pick r.op).map
          (fun r => (r.op, r.operand?))
        = given.map (fun d => (op d.1, some (d.2 : Int))) := by
  obtain ⟨given, hitems, hcode, hafter⟩ := h [] hstart
  refine ⟨given, hitems, hafter, ?_⟩
  have hend : picked pick (Code.plain line [stop]) = [] :=
    picked_plain (List.forall_mem_singleton.mpr hstop)
  rw [picked_records hoperand, picked_append, hcode, hend, List.append_nil, List.map_map]
  rfl

end Code.Tracks

/-! ## The instructions of the walk itself -/

namespace Backend

/-- The instructions that the walk chooses are not of the kind: only literals and variables give rise to
instructions that are. -/
structure Unpicked (b : Backend ω ν) (pick : ω → Bool) : Prop where
  unset : pick b.unset.1 = false
  unary (op : UnaryOp) : pick (b.unary op) = false
  binary (op : BinaryOp) : ∀ o ∈ b.binary op, pick o = false
  print : pick b.print = false
  pop : pick b.pop = false
  keep : ∀ op ∈ b.keep, pick op = false
  drop : ∀ op ∈ b.drop, pick op = false
  jump : pick b.jump = false
  jumpUnless : pick b.jumpUnless = false
  lead : ∀ p ∈ b.jumpIf.1, pick p.1 = false
  jumpIf : pick b.jumpIf.2 = false
  loop : pick b.loop = false
  stop : pick b.stop = false

namespace Unpicked

variable {b : Backend ω ν} {line : Nat} {arg arg' : Int}

/-- A single instruction that is not of the kind. -/
theorem picked_one {op : ω} (h : pick op = false) :
    Code.picked pick (Code.onLine line [(op, arg)]) = [] :=
  Code.picked_onLine (List.forall_mem_singleton.mpr h)

/-- The value of a variable that is declared without one. -/
theorem picked_unset (h : b.Unpicked pick) : Code.picked pick (Code.onLine line [b.unset]) = [] :=
  Code.picked_onLine (List.forall_mem_singleton.mpr h.unset)

/-- The end of a block discards some values. -/
theorem picked_pops (h : b.Unpicked pick) (count : Nat) :
    Code.picked pick (Code.plain line (List.replicate count b.pop)) = [] := by
  apply Code.picked_plain
  intro op hop
  rw [List.eq_of_mem_replicate hop]
  exact h.pop

/-- Of a logical operation, only the operands count. -/
theorem picked_logical [Opcode ω] (h : b.Unpicked pick) (op : LogicalOp) (left right : Code ω) :
    Code.picked pick
        [left, Code.plain line b.keep,
          Code.onLine line (b.shortCutLead op ++ [(b.shortCutJump op, arg)]),
          Code.plain line [b.pop] ++ right].flatten
      = Code.picked pick (left ++ right) := by
  have hjump : Code.picked pick
      (Code.onLine line (b.shortCutLead op ++ [(b.shortCutJump op, arg)])) = [] := by
    apply Code.picked_onLine
    cases op with
    | and => exact List.forall_mem_singleton.mpr h.jumpUnless
    | or => exact List.forall_mem_append.mpr ⟨h.lead, List.forall_mem_singleton.mpr h.jumpIf⟩
  have hpop : Code.picked pick (Code.plain line [b.pop]) = [] := h.picked_pops 1
  simp only [List.flatten_cons, List.flatten_nil, List.append_nil, Code.picked_append,
    Code.picked_plain h.keep, hjump, hpop, List.nil_append]

/-- Of a conditional, only the condition and the branches count. -/
theorem picked_ifThen (h : b.Unpicked pick) (condition yes no : Code ω) :
    Code.picked pick
        [condition, Code.onLine line [(b.jumpUnless, arg)], Code.plain line b.drop, yes,
          Code.onLine line [(b.jump, arg')], Code.plain line b.drop, no].flatten
      = Code.picked pick (condition ++ (yes ++ no)) := by
  simp only [List.flatten_cons, List.flatten_nil, List.append_nil, Code.picked_append,
    picked_one h.jumpUnless, picked_one h.jump, Code.picked_plain h.drop, List.nil_append]

/-- Of a loop, only the condition and the body count. -/
theorem picked_whileDo (h : b.Unpicked pick) (condition body : Code ω) :
    Code.picked pick
        [condition, Code.onLine line [(b.jumpUnless, arg)], Code.plain line b.drop, body,
          Code.onLine line [(b.loop, arg')], Code.plain line b.drop].flatten
      = Code.picked pick (condition ++ body) := by
  simp only [List.flatten_cons, List.flatten_nil, List.append_nil, Code.picked_append,
    picked_one h.jumpUnless, picked_one h.loop, Code.picked_plain h.drop, List.nil_append]

end Unpicked

end Backend

end Scriptlet
