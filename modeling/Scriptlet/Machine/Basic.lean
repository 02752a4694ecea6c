/-! # Machines

A machine moves from state to state until it stops or fails. It runs for at most a given number of
steps; the state at the end is the one in front of the instruction that stopped it or failed.
-/

namespace Scriptlet.Machine

/-- What a step of a machine leads to. -/
inductive Progress (σ : Type) where
  | next (s : σ)
  | stopped
  | failed
deriving Repr

/-- How a run ends. -/
inductive Ending where
  | stopped
  | failed
  /-- The run could go on. -/
  | running
deriving DecidableEq, Repr

/-- Runs a machine for at most `steps` steps. -/
def run {σ : Type} (step : σ → Progress σ) : (steps : Nat) → σ → Ending × σ
  | 0, s => (.running, s)
  | steps + 1, s =>
      match step s with
      | .next s => run step steps s
      | .stopped => (.stopped, s)
      | .failed => (.failed, s)

end Scriptlet.Machine
