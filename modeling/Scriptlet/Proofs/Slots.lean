import Mathlib.Data.List.Forall2
import Scriptlet.Proofs.Frames

/-! # Scopes in numbered slots

The evaluator keeps variables in a chain of scopes; the word machine keeps them in one flat store of
numbered slots. The generator has a chain of scopes too, which binds names to slots. `Mirrors` says how
a scope of the generator and a scope of the evaluator correspond: they bind the same names, and where
one has a slot, the other has the integer in that slot.

Variables of the same name in nested scopes have different slots, and a slot is never given to another
variable, so a store into a slot changes one variable only. That slots are apart is what assignments
and declarations rest on. Slots of variables that have gone out of scope keep their words, of which
nothing is said.
-/

namespace Scriptlet

/-- The words in the slots of the word machine. -/
abbrev Slots := Std.TreeMap Int Int64

theorem Slots.getElem?_insert (slots : Slots) (n k : Int) (w : Int64) :
    (slots.insert n w)[k]? = if n = k then some w else slots[k]? := by
  rw [Std.TreeMap.getElem?_insert]
  simp only [Std.LawfulEqCmp.compare_eq_iff_eq]

/-- Two scopes bind the same names, one to slots and the other one to the integers in these slots. -/
def Mirrors (slots : Slots) (known : Scope Nat) (scope : Scope Value) : Prop :=
  ∀ name : String, (known[name]? = none ∧ scope[name]? = none) ∨
    ∃ (n : Nat) (w : Int64), known[name]? = some n ∧ slots[(n : Int)]? = some w ∧
      scope[name]? = some (.int w)

/-- Is the slot none of those in a scope? -/
def Avoids (n : Nat) (known : Scope Nat) : Prop :=
  ∀ name : String, known[name]? ≠ some n

/-- No two variables in scope share a slot. -/
structure Apart (knowns : List (Scope Nat)) : Prop where
  within : ∀ known ∈ knowns, ∀ (name other : String) (n : Nat),
    known[name]? = some n → known[other]? = some n → other = name
  between : knowns.Pairwise fun known outer =>
    ∀ (name : String) (n : Nat), known[name]? = some n → Avoids n outer

variable {slots : Slots} {known known' : Scope Nat} {knowns : List (Scope Nat)}
  {scope : Scope Value} {scopes : List (Scope Value)} {name : String} {n : Nat} {w : Int64}

/-! ## Slots that are apart -/

theorem Apart.nil : Apart [] :=
  ⟨fun _ h => (nomatch h), .nil⟩

/-- A new scope has no slots to share. -/
theorem Apart.enter (h : Apart knowns) : Apart (∅ :: knowns) := by
  constructor
  · intro known hknown
    rcases List.mem_cons.mp hknown with rfl | hknown
    · intro name other n hname
      simp at hname
    · exact h.within known hknown
  · refine .cons ?_ h.between
    intro outer _ name n hname
    simp at hname

theorem Apart.tail (h : Apart (known :: knowns)) : Apart knowns :=
  ⟨fun outer houter => h.within outer (List.mem_cons_of_mem _ houter), h.between.of_cons⟩

/-- A new slot keeps slots apart. -/
theorem Apart.define (h : Apart (known :: knowns)) (hnew : ∀ outer ∈ known :: knowns, Avoids n outer)
    (name : String) : Apart (known.insert name n :: knowns) := by
  -- a name is bound to the new slot, or as it was before
  have hbound {other : String} {k : Nat} (hother : (known.insert name n)[other]? = some k) :
      (name = other ∧ n = k) ∨ known[other]? = some k := by
    rw [Scope.getElem?_insert] at hother
    split at hother
    · exact .inl ⟨‹_›, Option.some.inj hother⟩
    · exact .inr hother
  have hhere := hnew known List.mem_cons_self
  constructor
  · intro outer houter
    rcases List.mem_cons.mp houter with rfl | houter
    · intro x y k hx hy
      rcases hbound hx with ⟨rfl, rfl⟩ | hx
      · rcases hbound hy with ⟨rfl, -⟩ | hy
        · rfl
        · exact absurd hy (hhere y)
      · rcases hbound hy with ⟨rfl, rfl⟩ | hy
        · exact absurd hx (hhere x)
        · exact h.within known List.mem_cons_self x y k hx hy
    · exact h.within outer (List.mem_cons_of_mem _ houter)
  · refine .cons ?_ h.tail.between
    intro outer houter x k hx
    rcases hbound hx with ⟨-, rfl⟩ | hx
    · exact hnew outer (List.mem_cons_of_mem _ houter)
    · exact List.rel_of_pairwise_cons h.between houter x k hx

/-! ## Stores into slots -/

/-- A word in another slot is still there. -/
theorem Slots.getElem?_insert_ne {k : Nat} {x : Int64} (hk : n ≠ k)
    (h : slots[(k : Int)]? = some x) : (slots.insert (n : Int) w)[(k : Int)]? = some x := by
  rw [Slots.getElem?_insert, if_neg (by omega)]
  exact h

theorem Mirrors.empty (slots : Slots) : Mirrors slots ∅ ∅ :=
  fun _ => .inl ⟨Std.TreeMap.getElem?_emptyc, Std.TreeMap.getElem?_emptyc⟩

/-- A store into a slot of another scope. -/
theorem Mirrors.insert_elsewhere (h : Mirrors slots known scope) (hn : Avoids n known) :
    Mirrors (slots.insert (n : Int) w) known scope := by
  intro name
  rcases h name with hnone | ⟨k, x, hk, hx, hscope⟩
  · exact .inl hnone
  · have hne : n ≠ k := by
      rintro rfl
      exact hn name hk
    exact .inr ⟨k, x, hk, Slots.getElem?_insert_ne hne hx, hscope⟩

/-- A store into the slot of a variable, whether the variable is new or not. -/
theorem Mirrors.insert_here (h : Mirrors slots known scope)
    (hn : ∀ other, known[other]? = some n → other = name)
    (hknown : ∀ other, known'[other]? = if name = other then some n else known[other]?) :
    Mirrors (slots.insert (n : Int) w) known' (scope.insert name (.int w)) := by
  intro other
  rw [hknown, Scope.getElem?_insert]
  by_cases hother : name = other
  · rw [if_pos hother, if_pos hother]
    exact .inr ⟨n, w, rfl, by rw [Slots.getElem?_insert, if_pos rfl], rfl⟩
  · rw [if_neg hother, if_neg hother]
    rcases h other with hnone | ⟨k, x, hk, hx, hscope⟩
    · exact .inl hnone
    -- one name has the slot, so the slots of the others are not overwritten
    · have hne : n ≠ k := by
        rintro rfl
        exact hother (hn other hk).symm
      exact .inr ⟨k, x, hk, Slots.getElem?_insert_ne hne hx, hscope⟩

/-! ## Chains of scopes -/

/-- A chain of scopes of the generator and one of the evaluator correspond, scope by scope. -/
abbrev MirrorsAll (slots : Slots) : List (Scope Nat) → List (Scope Value) → Prop :=
  List.Forall₂ (Mirrors slots)

/-- A name that has a slot is bound to the integer in it. -/
theorem MirrorsAll.findSome? (h : MirrorsAll slots knowns scopes)
    (hname : (knowns.findSome? fun known => known[name]?) = some n) :
    ∃ w, slots[(n : Int)]? = some w ∧
      (scopes.findSome? fun scope => scope[name]?) = some (.int w) := by
  induction h with
  | nil => cases hname
  | cons hhere _ ih =>
      rw [List.findSome?_cons] at hname ⊢
      rcases hhere name with ⟨hknown, hscope⟩ | ⟨k, w, hk, hw, hscope⟩
      · rw [hknown] at hname
        rw [hscope]
        exact ih hname
      · rw [hk] at hname
        cases hname
        exact ⟨w, hw, by rw [hscope]⟩

/-- A word in a slot that no scope knows changes nothing. -/
theorem MirrorsAll.insert_elsewhere (h : MirrorsAll slots knowns scopes)
    (hn : ∀ known ∈ knowns, Avoids n known) :
    MirrorsAll (slots.insert (n : Int) w) knowns scopes := by
  induction h with
  | nil => exact .nil
  | cons hhere _ ih =>
      rw [List.forall_mem_cons] at hn
      exact .cons (hhere.insert_elsewhere hn.1) (ih hn.2)

/-- A variable of the innermost scope gets a word. -/
theorem MirrorsAll.define (hhere : Mirrors slots known scope) (houter : MirrorsAll slots knowns scopes)
    (hn : ∀ other, known[other]? = some n → other = name)
    (hknown : ∀ other, known'[other]? = if name = other then some n else known[other]?)
    (helsewhere : ∀ outer ∈ knowns, Avoids n outer) :
    MirrorsAll (slots.insert (n : Int) w) (known' :: knowns)
      (scope.insert name (.int w) :: scopes) :=
  .cons (hhere.insert_here hn hknown) (MirrorsAll.insert_elsewhere houter helsewhere)

/-- A variable that the innermost scope has already gets another word. -/
theorem MirrorsAll.redefine (hhere : Mirrors slots known scope)
    (houter : MirrorsAll slots knowns scopes) (hapart : Apart (known :: knowns))
    (hname : known[name]? = some n) :
    MirrorsAll (slots.insert (n : Int) w) (known :: knowns)
      (scope.insert name (.int w) :: scopes) := by
  refine .define hhere houter ?_ ?_ ?_
  · intro other hother
    exact hapart.within known List.mem_cons_self name other n hname hother
  · intro other
    by_cases hother : name = other
    · rw [if_pos hother, ← hother, hname]
    · rw [if_neg hother]
  · intro outer hmem
    exact List.rel_of_pairwise_cons hapart.between hmem name n hname

/-- An assignment to a name changes the variable that the name has a slot for. -/
theorem MirrorsAll.rebind (h : MirrorsAll slots knowns scopes) (hapart : Apart knowns)
    (hname : (knowns.findSome? fun known => known[name]?) = some n) :
    ∃ rebound, Scopes.rebindFirst? name (.int w) scopes = some rebound ∧
      MirrorsAll (slots.insert (n : Int) w) knowns rebound := by
  -- from the innermost scope outwards, up to the one that binds the name
  induction h with
  | nil => cases hname
  | @cons known scope knowns scopes hhere houter ih =>
      rw [List.findSome?_cons] at hname
      rw [Scopes.rebindFirst?, Scope.contains_eq]
      rcases hhere name with ⟨hknown, hscope⟩ | ⟨k, x, hk, -, hscope⟩
      · -- The variable is further out, and its slot is none of this scope's.
        rw [hknown] at hname
        rcases ih hapart.tail hname with ⟨rebound, hrebound, hmirrors⟩
        rcases List.exists_of_findSome?_eq_some hname with ⟨outer, hmem, hslot⟩
        have havoids : Avoids n known := by
          intro other hother
          exact List.rel_of_pairwise_cons hapart.between hmem other n hother name hslot
        rw [hscope, hrebound]
        exact ⟨scope :: rebound, rfl, .cons (hhere.insert_elsewhere havoids) hmirrors⟩
      · rw [hk] at hname
        cases hname
        rw [hscope]
        exact ⟨_, rfl, .redefine hhere houter hapart hk⟩

end Scriptlet
