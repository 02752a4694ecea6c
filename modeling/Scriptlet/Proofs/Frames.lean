import Scriptlet.Machine.Pool
import Scriptlet.Proofs.Backends

/-! # Scopes on the stack

The evaluator keeps variables in a chain of scopes; the pool machine keeps the variables of blocks on its
stack, and the others in a table of globals. `LaidOut` says how the two correspond: the outermost scope
is the table, and each scope of a block is a run of stack slots that belong to the depth of that block.
A name may be declared twice in one block. Then it has two slots and one binding, and the slot that
counts is the last one.

Looking a name up, assigning to it, declaring it, and entering and leaving a block keep the
correspondence.
-/

namespace Scriptlet

/-- The local variables in scope with their values, the last one declared first. -/
abbrev Frame := List (Local × Value)

namespace Frame

/-- The variables of a frame. -/
def locals (frame : Frame) : List Local :=
  frame.map Prod.fst

/-- The stack slots of a frame. -/
def values (frame : Frame) : List Value :=
  frame.map Prod.snd

/-- The value of the last declared variable of a name. -/
def find? (name : String) : Frame → Option Value
  | [] => none
  | (l, v) :: below => if l.name = name then some v else find? name below

/-- Gives another value to the last declared variable of a name. -/
def assign (name : String) (value : Value) : Frame → Frame
  | [] => []
  | (l, v) :: below =>
      if l.name = name then (l, value) :: below else (l, v) :: assign name value below

@[simp]
theorem length_values (frame : Frame) : frame.values.length = frame.locals.length := by
  simp [values, locals]

/-- The inner part of a frame shadows the outer one. -/
theorem find?_append (name : String) (here below : Frame) :
    find? name (here ++ below) = (find? name here).or (find? name below) := by
  induction here with
  | nil => rfl
  | cons p here ih =>
      by_cases hp : p.1.name = name
      · simp [find?, hp]
      · simpa [find?, hp] using ih

/-- An assignment leaves the variables of a frame as they are. -/
theorem locals_assign (name : String) (value : Value) (frame : Frame) :
    (assign name value frame).locals = frame.locals := by
  induction frame with
  | nil => rfl
  | cons p frame ih =>
      by_cases hp : p.1.name = name
      · simp [assign, hp, locals]
      · simpa [assign, hp, locals] using ih

/-- A value that is found belongs to a variable of the frame. -/
theorem mem_of_find? {name : String} {frame : Frame} {v : Value} (h : find? name frame = some v) :
    ∃ l, (l, v) ∈ frame := by
  induction frame with
  | nil => cases h
  | cons p frame ih =>
      rcases p with ⟨l, w⟩
      by_cases hl : l.name = name
      · rw [find?, if_pos hl] at h
        cases h
        exact ⟨l, List.mem_cons_self⟩
      · rw [find?, if_neg hl] at h
        rcases ih h with ⟨l', hl'⟩
        exact ⟨l', List.mem_cons_of_mem _ hl'⟩

/-- Behind an assignment, the frame has the assigned value and the old ones. -/
theorem mem_assign {name : String} {value : Value} {frame : Frame} {p : Local × Value}
    (h : p ∈ assign name value frame) : p.2 = value ∨ p ∈ frame := by
  induction frame with
  | nil => cases h
  | cons q frame ih =>
      by_cases hq : q.1.name = name
      · rw [assign, if_pos hq] at h
        rcases List.mem_cons.mp h with rfl | h
        · exact .inl rfl
        · exact .inr (List.mem_cons_of_mem _ h)
      · rw [assign, if_neg hq] at h
        rcases List.mem_cons.mp h with rfl | h
        · exact .inr List.mem_cons_self
        · rcases ih h with hvalue | hmem
          · exact .inl hvalue
          · exact .inr (List.mem_cons_of_mem _ hmem)

theorem depth_assign {name : String} {value : Value} {frame : Frame} {depth : Nat}
    (h : ∀ p ∈ frame, p.1.depth = depth) : ∀ p ∈ assign name value frame, p.1.depth = depth := by
  intro p hp
  have hmem : p.1 ∈ frame.locals := by
    rw [← locals_assign name value frame]
    exact List.mem_map_of_mem hp
  rcases List.mem_map.mp hmem with ⟨q, hq, heq⟩
  rw [← heq]
  exact h q hq

/-- An assignment to a variable of the frame is seen under its name only. -/
theorem find?_assign {name other : String} {value : Value} {frame : Frame}
    (h : (find? name frame).isSome) :
    find? other (assign name value frame)
      = if name = other then some value else find? other frame := by
  induction frame with
  | nil => cases h
  | cons p frame ih =>
      rcases p with ⟨l, v⟩
      by_cases hl : l.name = name
      · subst hl
        by_cases hother : l.name = other <;> simp [assign, find?, hother]
      · rw [find?, if_neg hl] at h
        by_cases hother : l.name = other
        · have hne : name ≠ other := fun heq => hl (by rw [hother, heq])
          rw [assign, if_neg hl, find?, if_pos hother, if_neg hne, find?, if_pos hother]
        · simpa [assign, find?, hl, hother] using ih h

/-- An assignment to a variable of the inner part stays in it. -/
theorem assign_append_left {name : String} {value : Value} {here below : Frame}
    (h : (find? name here).isSome) :
    assign name value (here ++ below) = assign name value here ++ below := by
  induction here with
  | nil => cases h
  | cons p here ih =>
      by_cases hp : p.1.name = name
      · simp [assign, hp]
      · simp only [find?, hp, if_false] at h
        simpa [assign, hp] using ih h

/-- An assignment to a variable of the outer part leaves the inner one alone. -/
theorem assign_append_right {name : String} {value : Value} {here below : Frame}
    (h : find? name here = none) :
    assign name value (here ++ below) = here ++ assign name value below := by
  induction here with
  | nil => rfl
  | cons p here ih =>
      by_cases hp : p.1.name = name
      · simp [find?, hp] at h
      · simp only [find?, hp, if_false] at h
        simpa [assign, hp] using ih h

/-! ## Slots -/

/-- A name without a slot is not in the frame. -/
theorem find?_eq_none {name : String} {frame : Frame}
    (h : PoolVars.slotOf? name frame.locals = none) : find? name frame = none := by
  induction frame with
  | nil => rfl
  | cons p frame ih =>
      by_cases hp : p.1.name = name
      · simp [locals, PoolVars.slotOf?, hp] at h
      · simp only [locals, List.map_cons, PoolVars.slotOf?, hp, if_false] at h
        simpa [find?, hp] using ih h

/-- What lies on top of a frame does not move its slots. -/
theorem slot?_append {slot : Nat} {values : List Value} (temps : List Value)
    (h : slot < values.length) :
    PoolMachine.slot? slot (temps ++ values) = PoolMachine.slot? slot values := by
  induction temps with
  | nil => rfl
  | cons v temps ih =>
      have hne : (temps ++ values).length ≠ slot := by
        rw [List.length_append]
        omega
      rw [List.cons_append, PoolMachine.slot?, if_neg hne, ih]

/-- Slots are counted from the bottom, so values on top do not move them. -/
theorem setSlot?_append {slot : Nat} {value : Value} {values : List Value} (temps : List Value)
    (h : slot < values.length) :
    PoolMachine.setSlot? slot value (temps ++ values)
      = (PoolMachine.setSlot? slot value values).map (temps ++ ·) := by
  induction temps with
  | nil => simp
  | cons v temps ih =>
      have hne : (temps ++ values).length ≠ slot := by
        rw [List.length_append]
        omega
      rw [List.cons_append, PoolMachine.setSlot?, if_neg hne, ih, Option.map_map]
      rfl

/-- A name with a slot is in the frame, and its value is in the slot. -/
theorem slot?_values {name : String} {frame : Frame} {slot : Nat}
    (h : PoolVars.slotOf? name frame.locals = some slot) :
    ∃ v, find? name frame = some v ∧ PoolMachine.slot? slot frame.values = some v := by
  -- on the frame: a variable is declared on top of the slots of those declared before it
  induction frame with
  | nil => cases h
  | cons p frame ih =>
      rcases p with ⟨l, v⟩
      by_cases hl : l.name = name
      · simp only [locals, List.map_cons, PoolVars.slotOf?, hl, if_true, Option.some.injEq] at h
        refine ⟨v, by simp [find?, hl], ?_⟩
        simp only [values, List.map_cons, PoolMachine.slot?]
        rw [if_pos (by simpa using h)]
      · simp only [locals, List.map_cons, PoolVars.slotOf?, hl, if_false] at h
        rcases ih h with ⟨w, hfind, hslot⟩
        have hlt : slot < (values frame).length := by
          rw [length_values]
          exact PoolVars.slotOf?_lt h
        refine ⟨w, by simpa [find?, hl] using hfind, ?_⟩
        rw [← hslot]
        exact slot?_append [v] hlt

/-- Storing into the slot of a name assigns to the name. -/
theorem setSlot?_values {name : String} {value : Value} {frame : Frame} {slot : Nat}
    (h : PoolVars.slotOf? name frame.locals = some slot) :
    PoolMachine.setSlot? slot value frame.values = some (assign name value frame).values := by
  induction frame with
  | nil => cases h
  | cons p frame ih =>
      rcases p with ⟨l, v⟩
      by_cases hl : l.name = name
      · simp only [locals, List.map_cons, PoolVars.slotOf?, hl, if_true, Option.some.injEq] at h
        simp only [values, List.map_cons, PoolMachine.setSlot?, assign, hl, if_true]
        rw [if_pos (by simpa using h)]
      · simp only [locals, List.map_cons, PoolVars.slotOf?, hl, if_false] at h
        -- the slot lies below the variable on top
        have hlt : slot < (values frame).length := by
          rw [length_values]
          exact PoolVars.slotOf?_lt h
        have hset : PoolMachine.setSlot? slot value ([v] ++ values frame)
            = (PoolMachine.setSlot? slot value (values frame)).map ([v] ++ ·) :=
          setSlot?_append [v] hlt
        rw [ih h] at hset
        simpa [assign, hl, values] using hset

end Frame

/-- The end of a block forgets the variables of deeper blocks than the one around it. -/
theorem PoolVars.leave_eq {here below : List Local} {v : PoolVars}
    (hlocals : v.locals = here ++ below) (hhere : ∀ l ∈ here, v.depth - 1 < l.depth)
    (hbelow : ∀ l ∈ below, l.depth ≤ v.depth - 1) :
    leave v = (here.length, { v with locals := below, depth := v.depth - 1 }) := by
  have htaken : ∀ l ∈ here, decide (v.depth - 1 < l.depth) = true := by
    intro l hl
    exact decide_eq_true (hhere l hl)
  have hstop : below.takeWhile (fun l => decide (v.depth - 1 < l.depth)) = [] ∧
      below.dropWhile (fun l => decide (v.depth - 1 < l.depth)) = below := by
    cases below with
    | nil => exact ⟨rfl, rfl⟩
    | cons l rest =>
        have hl := hbelow l List.mem_cons_self
        simp [Nat.not_lt.mpr hl]
  simp only [leave]
  rw [hlocals, List.takeWhile_append_of_pos htaken, List.dropWhile_append_of_pos htaken,
    hstop.1, hstop.2, List.append_nil]

/-! ## The correspondence -/

/-- Scopes, from the inside to the outside, are laid out as a frame and a table of globals. -/
inductive LaidOut : List (Scope Value) → Frame → Scope Value → Prop
  | outermost {scope globals : Scope Value} :
      (∀ name : String, scope[name]? = globals[name]?) →
      LaidOut [scope] [] globals
  | block {scope globals : Scope Value} {outer : List (Scope Value)} {here below : Frame} :
      (∀ p ∈ here, p.1.depth = outer.length) →
      (∀ name : String, scope[name]? = here.find? name) →
      LaidOut outer below globals →
      LaidOut (scope :: outer) (here ++ below) globals

/-- What a scope binds once a name was bound in it. -/
theorem Scope.getElem?_insert {α : Type} (scope : Scope α) (name other : String) (a : α) :
    (scope.insert name a)[other]? = if name = other then some a else scope[other]? := by
  rw [Std.TreeMap.getElem?_insert]
  simp only [Std.LawfulEqCmp.compare_eq_iff_eq]

theorem Scope.contains_eq {α : Type} (scope : Scope α) (name : String) :
    scope.contains name = scope[name]?.isSome :=
  Std.TreeMap.contains_eq_isSome_getElem?

/-- An assignment opens and closes no scope. -/
theorem Scopes.length_rebindFirst? {α : Type} {name : String} {a : α}
    {scopes rebound : List (Scope α)} (h : rebindFirst? name a scopes = some rebound) :
    rebound.length = scopes.length := by
  induction scopes generalizing rebound with
  | nil => cases h
  | cons scope outer ih =>
      rw [rebindFirst?] at h
      by_cases hscope : scope.contains name
      · rw [if_pos hscope] at h
        cases h
        rfl
      · rw [if_neg hscope] at h
        rcases Option.map_eq_some_iff.mp h with ⟨rest, hrest, rfl⟩
        simp [ih hrest]

/-- Assigning in a chain is binding anew in the list of its scopes. -/
theorem Scopes.assign?_eq_some {α : Type} {s : Scopes α} {name : String} {a : α}
    {rebound : List (Scope α)} (h : rebindFirst? name a s.all = some rebound) :
    ∃ s', s.assign? name a = some s' ∧ s'.all = rebound := by
  rw [all, rebindFirst?] at h
  by_cases hinner : s.inner.contains name
  · rw [if_pos hinner] at h
    cases h
    exact ⟨s.define name a, by rw [assign?, if_pos hinner], rfl⟩
  · rw [if_neg hinner] at h
    rcases Option.map_eq_some_iff.mp h with ⟨outer, houter, rfl⟩
    exact ⟨{ s with outer }, by rw [assign?, if_neg hinner, houter]; rfl, rfl⟩

/-- An assignment opens and closes no scope. -/
theorem Scopes.length_outer_assign? {α : Type} {s s' : Scopes α} {name : String} {a : α}
    (h : s.assign? name a = some s') : s'.outer.length = s.outer.length := by
  unfold assign? at h
  by_cases hinner : s.inner.contains name
  · rw [if_pos hinner] at h
    cases h
    rfl
  · rw [if_neg hinner] at h
    rcases Option.map_eq_some_iff.mp h with ⟨outer, houter, rfl⟩
    exact length_rebindFirst? houter

theorem Scopes.assign?_eq_none {α : Type} {s : Scopes α} {name : String} {a : α}
    (h : rebindFirst? name a s.all = none) : s.assign? name a = none := by
  rw [all, rebindFirst?] at h
  by_cases hinner : s.inner.contains name
  · rw [if_pos hinner] at h
    cases h
  · rw [if_neg hinner] at h
    rw [assign?, if_neg hinner, Option.map_eq_none_iff.mp h]
    rfl

namespace LaidOut

variable {scopes outer : List (Scope Value)} {scope globals : Scope Value} {frame : Frame}

/-- A name is looked up in the frame first, then among the globals. -/
theorem findSome? (h : LaidOut scopes frame globals) (name : String) :
    scopes.findSome? (fun scope => scope[name]?) = (frame.find? name).or globals[name]? := by
  induction h with
  | outermost hglobals => simp [Frame.find?, hglobals]
  | block _ hscope _ ih =>
      rw [List.findSome?_cons, hscope, Frame.find?_append, ih, Option.or_assoc]
      cases Frame.find? name _ <;> rfl

/-- The slots of outer blocks belong to smaller depths. -/
theorem depth_lt (h : LaidOut scopes frame globals) : ∀ p ∈ frame, p.1.depth < scopes.length := by
  induction h with
  | outermost _ => simp
  | block hhere _ _ ih =>
      intro p hp
      rw [List.length_cons]
      rcases List.mem_append.mp hp with hp | hp
      · have := hhere p hp
        omega
      · have := ih p hp
        omega

/-- An assignment to a name with a slot changes the frame. -/
theorem rebind_local (h : LaidOut scopes frame globals) {name : String} {v : Value}
    (hname : (frame.find? name).isSome) :
    ∃ rebound, Scopes.rebindFirst? name v scopes = some rebound ∧
      LaidOut rebound (frame.assign name v) globals := by
  induction h with
  | outermost _ => cases hname
  | @block scope globals outer here below hhere hscope houter ih =>
      rw [Scopes.rebindFirst?, Scope.contains_eq, hscope]
      by_cases hfound : (here.find? name).isSome
      · -- The innermost scope binds the name, in one of its own slots.
        rw [if_pos hfound, Frame.assign_append_left hfound]
        refine ⟨_, rfl, .block (Frame.depth_assign hhere) ?_ houter⟩
        intro other
        rw [Scope.getElem?_insert, hscope, Frame.find?_assign hfound]
      -- It is a variable of an enclosing block, or none.
      · have hnone : here.find? name = none := by simpa using hfound
        rw [if_neg hfound, Frame.assign_append_right hnone]
        rw [Frame.find?_append, hnone, Option.none_or] at hname
        rcases ih hname with ⟨rebound, hrebound, hlaid⟩
        rw [hrebound]
        refine ⟨_, rfl, .block ?_ hscope hlaid⟩
        rw [Scopes.length_rebindFirst? hrebound]
        exact hhere

/-- An assignment to a name without a slot changes the table. -/
theorem rebind_global (h : LaidOut scopes frame globals) {name : String} {v : Value}
    (hname : frame.find? name = none) (hglobal : globals[name]?.isSome) :
    ∃ rebound, Scopes.rebindFirst? name v scopes = some rebound ∧
      LaidOut rebound frame (globals.insert name v) := by
  induction h with
  | outermost hglobals =>
      rw [Scopes.rebindFirst?, Scope.contains_eq, hglobals, if_pos hglobal]
      refine ⟨_, rfl, .outermost ?_⟩
      intro other
      rw [Scope.getElem?_insert, Scope.getElem?_insert, hglobals]
  | block hhere hscope _ ih =>
      rw [Frame.find?_append, Option.or_eq_none_iff] at hname
      rcases ih hname.2 hglobal with ⟨rebound, hrebound, hlaid⟩
      rw [Scopes.rebindFirst?, Scope.contains_eq, hscope, hname.1, hrebound]
      refine ⟨_, rfl, .block ?_ hscope hlaid⟩
      rw [Scopes.length_rebindFirst? hrebound]
      exact hhere

/-- An assignment to a name that is bound nowhere fails. -/
theorem rebind_none (h : LaidOut scopes frame globals) {name : String} {v : Value}
    (hname : frame.find? name = none) (hglobal : globals[name]? = none) :
    Scopes.rebindFirst? name v scopes = none := by
  induction h with
  | outermost hglobals =>
      rw [Scopes.rebindFirst?, Scope.contains_eq, hglobals, hglobal]
      rfl
  | block _ hscope _ ih =>
      rw [Frame.find?_append, Option.or_eq_none_iff] at hname
      rw [Scopes.rebindFirst?, Scope.contains_eq, hscope, hname.1, ih hname.2 hglobal]
      rfl

/-- A declaration outside of all blocks is a definition in the table. -/
theorem define_global {frame : Frame} (h : LaidOut [scope] frame globals) (name : String)
    (v : Value) : LaidOut [scope.insert name v] frame (globals.insert name v) := by
  cases h with
  | outermost hglobals =>
      refine .outermost ?_
      intro other
      rw [Scope.getElem?_insert, Scope.getElem?_insert, hglobals]
  | block _ _ houter => cases houter

/-- A declaration in a block is a new slot. -/
theorem define_local (h : LaidOut (scope :: outer) frame globals) (houter : outer ≠ [])
    (name : String) (v : Value) :
    LaidOut (scope.insert name v :: outer) (({ name, depth := outer.length }, v) :: frame)
      globals := by
  cases h with
  | outermost _ => exact absurd rfl houter
  | @block _ _ _ here below hhere hscope hlaid =>
      refine @LaidOut.block _ _ _ (({ name, depth := outer.length }, v) :: here) _ ?_ ?_ hlaid
      · intro p hp
        rcases List.mem_cons.mp hp with rfl | hp
        · rfl
        · exact hhere p hp
      · intro other
        rw [Scope.getElem?_insert, hscope, Frame.find?]

/-- A new block has no slots yet. -/
theorem enter (h : LaidOut scopes frame globals) : LaidOut (∅ :: scopes) frame globals := by
  refine @LaidOut.block _ _ _ [] _ (by simp) ?_ h
  intro name
  simp [Frame.find?]

/-- The variables that the end of a block forgets are the slots of its scope. -/
theorem leave (h : LaidOut (scope :: outer) frame globals) (houter : outer ≠ []) {v : PoolVars}
    (hlocals : v.locals = frame.locals) (hdepth : v.depth = outer.length) :
    ∃ here below : Frame, frame = here ++ below ∧ LaidOut outer below globals ∧
      v.leave = (here.length, { v with locals := below.locals, depth := outer.length - 1 }) := by
  cases h with
  | outermost _ => exact absurd rfl houter
  | @block _ _ _ here below hhere hscope hlaid =>
      refine ⟨here, below, rfl, hlaid, ?_⟩
      have hpos : 0 < outer.length := List.length_pos_iff.mpr houter
      have hsplit : v.locals = here.locals ++ below.locals := by
        rw [hlocals, Frame.locals, List.map_append]
        rfl
      -- the variables of the block are those that are deeper than what is around it
      have htaken : ∀ l ∈ here.locals, v.depth - 1 < l.depth := by
        intro l hl
        rcases List.mem_map.mp hl with ⟨p, hp, rfl⟩
        rw [hhere p hp, hdepth]
        omega
      have hkept : ∀ l ∈ below.locals, l.depth ≤ v.depth - 1 := by
        intro l hl
        rcases List.mem_map.mp hl with ⟨p, hp, rfl⟩
        have := hlaid.depth_lt p hp
        omega
      rw [PoolVars.leave_eq hsplit htaken hkept, hdepth]
      simp [Frame.locals]

end LaidOut

end Scriptlet
