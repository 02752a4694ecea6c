import Std.Data.TreeMap

/-! # Chains of scopes

Names are bound in scopes, and scopes are nested. Looking a name up and binding it anew go from the
innermost scope outwards; defining a name acts on the innermost scope alone. A chain always has at
least one scope, the outermost one, which is never left.
-/

namespace Scriptlet

/-- One scope: names, each bound to something. -/
abbrev Scope (α : Type) := Std.TreeMap String α

/-- A chain of scopes. -/
structure Scopes (α : Type) where
  /-- The innermost scope. -/
  inner : Scope α
  /-- The scopes around it, from the inside to the outside. -/
  outer : List (Scope α)

namespace Scopes

variable {α : Type}

/-- A single empty scope. -/
def empty : Scopes α :=
  { inner := ∅, outer := [] }

/-- All scopes, from the inside to the outside. -/
def all (s : Scopes α) : List (Scope α) :=
  s.inner :: s.outer

/-- The number of scopes. -/
def depth (s : Scopes α) : Nat :=
  s.outer.length + 1

/-- What a name is bound to in the nearest scope that binds it. -/
def find? (s : Scopes α) (name : String) : Option α :=
  s.all.findSome? fun scope => scope[name]?

/-- Is the name bound in the innermost scope? -/
def definesHere (s : Scopes α) (name : String) : Bool :=
  s.inner.contains name

/-- Binds a name in the innermost scope, whether it is bound there already or not. -/
def define (s : Scopes α) (name : String) (a : α) : Scopes α :=
  { s with inner := s.inner.insert name a }

/-- Binds a name anew in the first of these scopes that binds it already. -/
def rebindFirst? (name : String) (a : α) : List (Scope α) → Option (List (Scope α))
  | [] => none
  | scope :: outer =>
      if scope.contains name then some (scope.insert name a :: outer)
      else (rebindFirst? name a outer).map (scope :: ·)

/-- Binds a name anew in the nearest scope that binds it already, if there is one. -/
def assign? (s : Scopes α) (name : String) (a : α) : Option (Scopes α) :=
  if s.inner.contains name then some (s.define name a)
  else (rebindFirst? name a s.outer).map fun outer => { s with outer }

/-- Opens an empty scope within the innermost one. -/
def enter (s : Scopes α) : Scopes α :=
  { inner := ∅, outer := s.all }

/-- Leaves the innermost scope, unless it is the outermost one. -/
def leave (s : Scopes α) : Scopes α :=
  match s.outer with
  | [] => s
  | inner :: outer => { inner, outer }

end Scopes

end Scriptlet
