/-! # Sequences of steps

Parsing, evaluating, executing and editing are sequences of steps that change a state, and that may fail
and leave the state as it is at that moment. They differ in their states and errors only, so how a
sequence ends is said here for all of them.
-/

namespace Scriptlet

namespace EStateM

variable {ε σ α β : Type} {m : EStateM ε σ α} {f : α → EStateM ε σ β} {s s' : σ}

/-- Behind a step that succeeds, a sequence goes on with what is left of it. -/
theorem bind_of_ok {a : α} (h : m s = .ok a s') : (m >>= f) s = f a s' := by
  simp only [bind, EStateM.bind, h]

/-- A step that fails ends the sequence. -/
theorem bind_of_error {e : ε} (h : m s = .error e s') : (m >>= f) s = .error e s' := by
  simp only [bind, EStateM.bind, h]

/-- A sequence succeeds if both of its parts do. -/
theorem bind_eq_ok {b : β} (h : (m >>= f) s = .ok b s') :
    ∃ a t, m s = .ok a t ∧ f a t = .ok b s' := by
  cases hm : m s with
  | ok a t =>
    rw [bind_of_ok hm] at h
    exact ⟨a, t, rfl, h⟩
  | error e t =>
    rw [bind_of_error hm] at h
    cases h

/-- A sequence fails in its first part or in its second one. -/
theorem bind_eq_error {e : ε} (h : (m >>= f) s = .error e s') :
    m s = .error e s' ∨ ∃ a t, m s = .ok a t ∧ f a t = .error e s' := by
  cases hm : m s with
  | ok a t =>
    rw [bind_of_ok hm] at h
    exact .inr ⟨a, t, rfl, h⟩
  | error e' t =>
    rw [bind_of_error hm] at h
    cases h
    exact .inl rfl

end EStateM

end Scriptlet
