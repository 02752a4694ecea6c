import Mathlib.Data.List.Forall2
import Scriptlet.Proofs.Following
import Scriptlet.Proofs.Frames

/-! # Scope discipline

What executing a statement can do to the variables can be read off its text. Only a declaration
gives a scope a new name, and it does so in the scope that the statement stands in. Only an
assignment changes what a name is bound to elsewhere. A block opens a scope of its own and leaves it
on every way out, so the scopes that were there before are still there behind it, with the names
they had.

All of this holds for a step that succeeds, for one that fails at any depth, and for a loop that is
stopped: `Exec.Changes` speaks about the session that a step leaves behind, however it ends.

## Main statement

* `execution_keeps_scopes`: the scopes behind a statement, compared with those in front of it.
-/

namespace Scriptlet

/-! ## Names in the text -/

/-- The variables that an expression assigns to. -/
def Expr.targets : Expr → List String
  | literal _ _ => []
  | group _ inner => inner.targets
  | unary _ _ operand => operand.targets
  | binary _ _ left right => left.targets ++ right.targets
  | ident _ _ => []
  | assign _ name value => name :: value.targets
  | logical _ _ left right => left.targets ++ right.targets

namespace Stmt

/-- The variables that are assigned to anywhere in a statement. -/
def targets (st : Stmt) : List String :=
  st.expressions.flatMap Expr.targets

/-- The variables that a statement declares in the scope that it stands in: those of its
declarations that are in no block. -/
def declared : Stmt → List String
  | print _ _ => []
  | expression _ _ => []
  | var _ name _ => [name]
  | block _ _ => []
  | ifThen _ _ yes none => yes.declared
  | ifThen _ _ yes (some no) => yes.declared ++ no.declared
  | whileDo _ _ body => body.declared

end Stmt

/-! ## Changes of scopes -/

/-- What can become of a scope: it keeps its names, gains `declared` names only, and binds a name to
something else only if the name is `declared` or `assigned`. -/
structure Scope.Changes (declared assigned : List String) (before after : Scope Value) : Prop where
  keeps {name : String} (h : name ∈ before) : name ∈ after
  gains {name : String} (h : name ∈ after) : name ∈ before ∨ name ∈ declared
  value {name : String} (hdeclared : name ∉ declared) (hassigned : name ∉ assigned) :
    after[name]? = before[name]?

namespace Scope.Changes

variable {declared assigned : List String} {a b c : Scope Value}

theorem refl (a : Scope Value) : Scope.Changes declared assigned a a :=
  ⟨id, .inl, fun _ _ => rfl⟩

/-- Changes to a scope, one after the other, are changes to it. -/
theorem trans (h₁ : Scope.Changes declared assigned a b)
    (h₂ : Scope.Changes declared assigned b c) : Scope.Changes declared assigned a c := by
  refine ⟨fun h => h₂.keeps (h₁.keeps h), ?_, ?_⟩
  · intro name h
    rcases h₂.gains h with hb | hdeclared
    · exact h₁.gains hb
    · exact .inr hdeclared
  · intro name hdeclared hassigned
    exact (h₂.value hdeclared hassigned).trans (h₁.value hdeclared hassigned)

/-- What happens without declarations may happen with some. -/
theorem of_nil (h : Scope.Changes [] assigned a b) : Scope.Changes declared assigned a b := by
  refine ⟨h.keeps, ?_, ?_⟩
  · intro name hb
    rcases h.gains hb with ha | hnil
    · exact .inl ha
    · cases hnil
  · intro name _ hassigned
    exact h.value List.not_mem_nil hassigned

/-- Without declarations, a scope binds the names that it did. -/
theorem mem_iff (h : Scope.Changes [] assigned a b) (name : String) : name ∈ b ↔ name ∈ a := by
  constructor
  · intro hb
    rcases h.gains hb with ha | hnil
    · exact ha
    · cases hnil
  · exact h.keeps

/-- A name is bound that is declared, or that is there already and assigned. -/
theorem insert {name : String} (v : Value)
    (h : name ∈ declared ∨ name ∈ a ∧ name ∈ assigned) :
    Scope.Changes declared assigned a (a.insert name v) := by
  refine ⟨?_, ?_, ?_⟩
  · intro other hother
    exact Std.TreeMap.mem_insert.mpr (.inr hother)
  · intro other hother
    rcases Std.TreeMap.mem_insert.mp hother with heq | hmem
    · rw [Std.LawfulEqCmp.compare_eq_iff_eq] at heq
      subst heq
      rcases h with hdeclared | hassigned
      · exact .inr hdeclared
      · exact .inl hassigned.1
    · exact .inl hmem
  · intro other hdeclared hassigned
    -- a name that is neither declared nor assigned is another one
    have hne : name ≠ other := by
      rintro rfl
      rcases h with h | h
      · exact hdeclared h
      · exact hassigned h.2
    rw [Scope.getElem?_insert, if_neg hne]

end Scope.Changes

/-- What can become of a chain of scopes: the innermost one gains `declared` names only, and the
scopes around it gain none. -/
structure Scopes.Changes (declared assigned : List String) (before after : Scopes Value) :
    Prop where
  inner : Scope.Changes declared assigned before.inner after.inner
  outer : List.Forall₂ (Scope.Changes [] assigned) before.outer after.outer

namespace Scopes

variable {declared assigned : List String} {s t u : Scopes Value} {name : String}

theorem forall₂_changes_refl (scopes : List (Scope Value)) :
    List.Forall₂ (Scope.Changes declared assigned) scopes scopes := by
  rw [List.forall₂_same]
  intro scope _
  exact .refl scope

theorem forall₂_changes_trans {ss ts us : List (Scope Value)}
    (h₁ : List.Forall₂ (Scope.Changes declared assigned) ss ts)
    (h₂ : List.Forall₂ (Scope.Changes declared assigned) ts us) :
    List.Forall₂ (Scope.Changes declared assigned) ss us := by
  induction h₁ generalizing us with
  | nil => exact h₂
  | cons hscope _ ih =>
    cases h₂ with
    | cons hscope' hrest => exact .cons (hscope.trans hscope') (ih hrest)

theorem Changes.refl (s : Scopes Value) : Scopes.Changes declared assigned s s :=
  ⟨.refl _, forall₂_changes_refl _⟩

/-- Changes to all scopes, one after the other, are changes to them. -/
theorem Changes.trans (h₁ : Scopes.Changes declared assigned s t)
    (h₂ : Scopes.Changes declared assigned t u) : Scopes.Changes declared assigned s u :=
  ⟨h₁.inner.trans h₂.inner, forall₂_changes_trans h₁.outer h₂.outer⟩

/-- Where nothing is declared, more may be allowed to be. -/
theorem Changes.of_nil (h : Scopes.Changes [] assigned s t) :
    Scopes.Changes declared assigned s t :=
  ⟨h.inner.of_nil, h.outer⟩

/-- A declaration changes the innermost scope only. -/
theorem changes_define (v : Value) (h : name ∈ declared) :
    Scopes.Changes declared assigned s (s.define name v) :=
  ⟨.insert v (.inl h), forall₂_changes_refl _⟩

/-- Binding a name anew adds no name to any scope. -/
theorem changes_rebindFirst? {scopes rebound : List (Scope Value)} {v : Value}
    (h : rebindFirst? name v scopes = some rebound) (hname : name ∈ assigned) :
    List.Forall₂ (Scope.Changes [] assigned) scopes rebound := by
  induction scopes generalizing rebound with
  | nil => cases h
  | cons scope outer ih =>
    rw [rebindFirst?] at h
    by_cases hscope : scope.contains name
    · rw [if_pos hscope] at h
      cases h
      have hmem : name ∈ scope := Std.TreeMap.contains_iff_mem.mp hscope
      exact .cons (.insert v (.inr ⟨hmem, hname⟩)) (forall₂_changes_refl outer)
    · rw [if_neg hscope] at h
      obtain ⟨rest, hrest, rfl⟩ := Option.map_eq_some_iff.mp h
      exact .cons (.refl scope) (ih hrest)

/-- An assignment changes one scope, which has the name already. -/
theorem changes_assign? {v : Value} (h : s.assign? name v = some t) (hname : name ∈ assigned) :
    Scopes.Changes declared assigned s t := by
  unfold assign? at h
  by_cases hinner : s.inner.contains name
  · rw [if_pos hinner] at h
    cases h
    have hmem : name ∈ s.inner := Std.TreeMap.contains_iff_mem.mp hinner
    exact ⟨.insert v (.inr ⟨hmem, hname⟩), forall₂_changes_refl _⟩
  · rw [if_neg hinner] at h
    obtain ⟨outer, houter, rfl⟩ := Option.map_eq_some_iff.mp h
    exact ⟨.refl _, changes_rebindFirst? houter hname⟩

/-- When a scope is left that was entered before, the scopes around it are there again, and no name
has been added to them. -/
theorem changes_leave (h : Scopes.Changes declared assigned s.enter t) :
    Scopes.Changes [] assigned s t.leave := by
  have houter : List.Forall₂ (Scope.Changes [] assigned) (s.inner :: s.outer) t.outer := h.outer
  obtain ⟨inner, outer, hinner, hrest, hcons⟩ := List.forall₂_cons_left_iff.mp houter
  have hleave : t.leave = { inner, outer } := by
    unfold leave
    rw [hcons]
  rw [hleave]
  exact ⟨hinner, hrest⟩

end Scopes

/-! ## Steps of execution -/

namespace Exec

variable {α β : Type} {declared assigned : List String} {step : Exec α}

/-- The session that a step leaves behind, whether it succeeds or fails. -/
def sessionAfter (step : Exec α) (s : Session) : Session :=
  match step s with
  | .ok _ s' => s'
  | .error _ s' => s'

/-- Wherever the step is run and however it ends, it changes the scopes in this way only. -/
def Changes (declared assigned : List String) (step : Exec α) : Prop :=
  ∀ s : Session, Scopes.Changes declared assigned s.scopes (step.sessionAfter s).scopes

theorem Changes.of_nil (h : step.Changes [] assigned) : step.Changes declared assigned :=
  fun s => (h s).of_nil

theorem changes_pure (a : α) : (pure a : Exec α).Changes declared assigned :=
  fun s => .refl s.scopes

/-- A sequence of steps ends with its first step that fails, or behind its last one. -/
theorem Changes.bind {f : α → Exec β} (hstep : step.Changes declared assigned)
    (hf : ∀ a, (f a).Changes declared assigned) : (step >>= f).Changes declared assigned := by
  intro s
  have hfirst := hstep s
  cases hrun : step s with
  | error e s' =>
    simp only [sessionAfter, hrun] at hfirst
    simpa only [sessionAfter, EStateM.bind_of_error hrun] using hfirst
  | ok a s' =>
    simp only [sessionAfter, hrun] at hfirst
    have hnext := hf a s'
    simp only [sessionAfter, EStateM.bind_of_ok hrun]
    exact hfirst.trans hnext

theorem changes_ofExcept (x : Except RuntimeError α) :
    (ofEval (Eval.ofExcept x)).Changes declared assigned := by
  intro s
  cases x with
  | ok a => exact .refl s.scopes
  | error e => exact .refl s.scopes

/-- Reading a variable changes nothing. -/
theorem changes_fetch (name : String) (line : Nat) :
    (ofEval (Eval.fetch name line)).Changes declared assigned := by
  intro s
  cases h : s.scopes.find? name with
  | none => simpa only [sessionAfter, ofEval, Eval.fetch, h] using .refl s.scopes
  | some v => simpa only [sessionAfter, ofEval, Eval.fetch, h] using .refl s.scopes

/-- Assigning to a variable changes only that one. -/
theorem changes_store {name : String} (line : Nat) (v : Value) (hname : name ∈ assigned) :
    (ofEval (Eval.store name line v)).Changes declared assigned := by
  intro s
  cases h : s.scopes.assign? name v with
  | none => simpa only [sessionAfter, ofEval, Eval.store, h] using .refl s.scopes
  | some scopes =>
    simpa only [sessionAfter, ofEval, Eval.store, h] using Scopes.changes_assign? h hname

theorem changes_define {name : String} (v : Value) (hname : name ∈ declared) :
    (define name v).Changes declared assigned :=
  fun _ => Scopes.changes_define v hname

/-- Printing changes no scope. -/
theorem changes_printLine (line : Nat) (v : Value) :
    (printLine line v).Changes declared assigned := by
  intro s
  rcases h : s.sink.write (v.text ++ "\n").toUTF8 with ⟨written, sink⟩
  cases written with
  | false => simpa only [sessionAfter, printLine, h] using .refl s.scopes
  | true => simpa only [sessionAfter, printLine, h] using .refl s.scopes

/-- A step in a scope of its own adds no name to the scopes around it, not even if it fails. -/
theorem changes_inScope (h : step.Changes declared assigned) :
    (inScope step).Changes [] assigned := by
  intro s
  have hinside := h { scopes := s.scopes.enter, sink := s.sink }
  cases hrun : step { scopes := s.scopes.enter, sink := s.sink } with
  | ok a s' =>
    simp only [sessionAfter, hrun] at hinside
    simpa only [sessionAfter, inScope, hrun] using Scopes.changes_leave hinside
  | error e s' =>
    simp only [sessionAfter, hrun] at hinside
    simpa only [sessionAfter, inScope, hrun] using Scopes.changes_leave hinside

/-- What a round of a loop keeps, any number of rounds keeps. -/
theorem changes_repeatWhile {condition : Exec Bool} {body : Exec Unit}
    (hcondition : condition.Changes declared assigned) (hbody : body.Changes declared assigned)
    (bound : Nat) : (repeatWhile condition body bound).Changes declared assigned := by
  induction bound with
  | zero => exact fun s => .refl s.scopes
  | succ bound ih =>
    refine hcondition.bind fun holds => ?_
    split
    · exact hbody.bind fun _ => ih
    · exact changes_pure ()

end Exec

/-! ## Expressions and statements -/

open Exec

section Syntax

variable {declared assigned : List String}

/-- Evaluating an expression assigns to its targets, and declares nothing. -/
theorem changes_eval {e : Expr} (h : e.targets ⊆ assigned) :
    (ofEval e.eval).Changes declared assigned := by
  -- on the expression, along its evaluation; an assignment is the only part that changes something
  induction e with
  | literal line value => exact changes_pure value
  | group line inner ih => exact ih h
  | unary line op operand ih =>
    rw [Expr.eval, ofEval_bind]
    exact (ih h).bind fun v => changes_ofExcept _
  | binary line op left right ihl ihr =>
    obtain ⟨hl, hr⟩ := List.append_subset.mp h
    rw [Expr.eval, ofEval_bind]
    refine (ihl hl).bind fun l => ?_
    rw [ofEval_bind]
    exact (ihr hr).bind fun r => changes_ofExcept _
  | ident line name => exact changes_fetch name line
  | assign line name value ih =>
    obtain ⟨hname, hvalue⟩ := List.cons_subset.mp h
    rw [Expr.eval, ofEval_bind]
    refine (ih hvalue).bind fun v => ?_
    rw [ofEval_bind]
    exact (changes_store line v hname).bind fun _ => changes_pure v
  | logical line op left right ihl ihr =>
    obtain ⟨hl, hr⟩ := List.append_subset.mp h
    rw [Expr.eval, ofEval_bind]
    refine (ihl hl).bind fun l => ?_
    split
    · exact changes_pure l
    · exact ihr hr

theorem changes_holds {e : Expr} (h : e.targets ⊆ assigned) :
    (holds e).Changes declared assigned :=
  (changes_eval h).bind fun v => changes_pure v.truthy

mutual

/-- Executing a statement assigns to its targets and declares what it declares outside of blocks. -/
theorem changes_exec {declared : List String} {st : Stmt} (bound : Nat)
    (htargets : st.targets ⊆ assigned) (hdeclared : st.declared ⊆ declared) :
    (st.exec bound).Changes declared assigned := by
  cases st with
  | print line value =>
    rw [Stmt.exec]
    have hvalue : value.targets ⊆ assigned := by
      simpa [Stmt.targets, Stmt.expressions] using htargets
    exact (changes_eval hvalue).bind fun v => changes_printLine line v
  | expression line value =>
    rw [Stmt.exec]
    have hvalue : value.targets ⊆ assigned := by
      simpa [Stmt.targets, Stmt.expressions] using htargets
    exact (changes_eval hvalue).bind fun v => changes_pure ()
  | var line name initial =>
    have hname : name ∈ declared := by simpa [Stmt.declared] using hdeclared
    cases initial with
    | none =>
      rw [Stmt.exec]
      exact changes_define .nil hname
    | some initial =>
      rw [Stmt.exec]
      have hinitial : initial.targets ⊆ assigned := by
        simpa [Stmt.targets, Stmt.expressions] using htargets
      exact (changes_eval hinitial).bind fun v => changes_define v hname
  | block line body =>
    rw [Stmt.exec]
    -- the body may declare what it likes: the scope that it does so in is left behind
    have hbody : (Stmt.execAll bound body).Changes (body.flatMap Stmt.declared) assigned :=
      changes_execAll bound htargets (List.Subset.refl _)
    exact (changes_inScope hbody).of_nil
  | ifThen line condition yes no =>
    cases no with
    | none =>
      rw [Stmt.exec]
      obtain ⟨hcondition, hyes⟩ : condition.targets ⊆ assigned ∧ yes.targets ⊆ assigned := by
        simpa [Stmt.targets, Stmt.expressions] using htargets
      refine (changes_holds hcondition).bind fun holds => ?_
      split
      · exact changes_exec bound hyes hdeclared
      · exact changes_pure ()
    | some no =>
      rw [Stmt.exec]
      obtain ⟨hcondition, hyes, hno⟩ : condition.targets ⊆ assigned ∧ yes.targets ⊆ assigned ∧
          no.targets ⊆ assigned := by
        simpa [Stmt.targets, Stmt.expressions] using htargets
      obtain ⟨hdeclaredYes, hdeclaredNo⟩ := List.append_subset.mp hdeclared
      refine (changes_holds hcondition).bind fun holds => ?_
      split
      · exact changes_exec bound hyes hdeclaredYes
      · exact changes_exec bound hno hdeclaredNo
  | whileDo line condition body =>
    rw [Stmt.exec]
    obtain ⟨hcondition, hbody⟩ : condition.targets ⊆ assigned ∧ body.targets ⊆ assigned := by
      simpa [Stmt.targets, Stmt.expressions] using htargets
    exact changes_repeatWhile (changes_holds hcondition) (changes_exec bound hbody hdeclared) bound

/-- Statements change what they assign to and what they declare, one after the other. -/
theorem changes_execAll {declared : List String} {sts : List Stmt} (bound : Nat)
    (htargets : (Stmt.expressionsOfAll sts).flatMap Expr.targets ⊆ assigned)
    (hdeclared : sts.flatMap Stmt.declared ⊆ declared) :
    (Stmt.execAll bound sts).Changes declared assigned := by
  cases sts with
  | nil =>
    rw [Stmt.execAll]
    exact changes_pure ()
  | cons st rest =>
    rw [Stmt.execAll]
    rw [Stmt.expressionsOfAll, List.flatMap_append] at htargets
    rw [List.flatMap_cons] at hdeclared
    obtain ⟨hst, hrest⟩ := List.append_subset.mp htargets
    obtain ⟨hst', hrest'⟩ := List.append_subset.mp hdeclared
    exact (changes_exec bound hst hst').bind fun _ => changes_execAll bound hrest hrest'

end

end Syntax

/-- As many scopes are open as before. -/
theorem Scopes.Changes.depth_eq {declared assigned : List String} {s t : Scopes Value}
    (h : Scopes.Changes declared assigned s t) : t.depth = s.depth :=
  congrArg (· + 1) h.outer.length_eq.symm

/-- The scopes outside bind the same names, and have new values for assigned ones only. -/
theorem Scopes.Changes.outer_keeps {declared assigned : List String} {s t : Scopes Value}
    (h : Scopes.Changes declared assigned s t) :
    List.Forall₂ (fun before after : Scope Value => (∀ name, name ∈ after ↔ name ∈ before) ∧
      ∀ name ∉ assigned, after[name]? = before[name]?) s.outer t.outer := by
  refine h.outer.imp ?_
  intro before after hscope
  constructor
  · exact hscope.mem_iff
  · intro name hname
    exact hscope.value List.not_mem_nil hname

/-- Executing a statement keeps the discipline of scopes, in whatever session it is executed, and
whether it succeeds, fails with an error or is stopped in a loop.

* There are as many scopes behind it as in front of it.
* Every scope but the innermost one binds the names that it bound before, and binds those that are
  not assigned to in the statement to what they were bound to before.
* The innermost scope keeps its names and gains only names that are declared in the statement
  outside of its blocks. It binds all names that are neither assigned to nor declared in this way as
  before.
* So a block neither adds a name to a scope around it nor removes one. -/
theorem execution_keeps_scopes (bound : Nat) (s : Session) :
    (∀ st : Stmt,
      let s' := (st.exec bound).sessionAfter s
      s'.scopes.depth = s.scopes.depth ∧
      List.Forall₂ (fun before after : Scope Value => (∀ name, name ∈ after ↔ name ∈ before) ∧
        ∀ name ∉ st.targets, after[name]? = before[name]?) s.scopes.outer s'.scopes.outer ∧
      (∀ name ∈ s.scopes.inner, name ∈ s'.scopes.inner) ∧
      (∀ name ∈ s'.scopes.inner, name ∈ s.scopes.inner ∨ name ∈ st.declared) ∧
      ∀ name ∉ st.targets, name ∉ st.declared → s'.scopes.inner[name]? = s.scopes.inner[name]?) ∧
    ∀ (line : Nat) (body : List Stmt),
      List.Forall₂ (fun before after : Scope Value => ∀ name, name ∈ after ↔ name ∈ before)
        s.scopes.all (((Stmt.block line body).exec bound).sessionAfter s).scopes.all := by
  constructor
  · intro st
    have h := changes_exec bound (List.Subset.refl st.targets) (List.Subset.refl st.declared) s
    refine ⟨h.depth_eq, h.outer_keeps, ?_, ?_, ?_⟩
    · intro name hname
      exact h.inner.keeps hname
    · intro name hname
      exact h.inner.gains hname
    · intro name htarget hdeclared
      exact h.inner.value hdeclared htarget
  · intro line body
    -- a block declares nothing outside of itself
    have hnone : (Stmt.block line body).declared ⊆ [] := List.Subset.refl _
    have h := changes_exec bound (List.Subset.refl (Stmt.block line body).targets) hnone s
    refine .cons h.inner.mem_iff (h.outer.imp ?_)
    intro before after hscope
    exact hscope.mem_iff

end Scriptlet
