/-! # Shortest decimals

The decimal with the fewest digits that reads back as a given binary floating-point number. A finite
number is `mantissa * 2 ^ exponent`, and every real number in a small interval around it rounds to
it. The coarsest decimal grid with a point in that interval gives the fewest digits, and of the two
grid points next to the number the nearer one is taken. All arithmetic is exact, on `Nat`.
-/

namespace Scriptlet.Decimal

/-- The positive number `mantissa * 2 ^ exponent`, with what its rounding interval depends on. -/
structure Binary where
  mantissa : Nat
  exponent : Int
  /-- The number is the least of its binade, so its lower neighbour is only half a step away. -/
  leastOfBinade : Bool
deriving DecidableEq, Repr

/-- The magnitude that the bits of a finite, nonzero number stand for. -/
def Binary.ofBits (bits : UInt64) : Binary :=
  let fraction : Nat := bits.toNat % Nat.pow 2 52
  let exponent : Nat := bits.toNat / Nat.pow 2 52 % Nat.pow 2 11
  if exponent = 0 then
    -- subnormal numbers have no implicit bit
    { mantissa := fraction, exponent := -1074, leastOfBinade := false }
  else
    { mantissa := fraction + Nat.pow 2 52
      exponent := (exponent : Int) - 1075
      leastOfBinade := fraction = 0 ∧ 1 < exponent }

/-- The number `digits * 10 ^ exponent`. -/
structure Scaled where
  digits : Nat
  exponent : Int
deriving DecidableEq, Repr

/-- A decimal grid laid over a binary number: `point` counts grid steps and `quarter` counts quarters
of the number's last place, both in one common unit. -/
structure Grid where
  point : Nat
  quarter : Nat

/-- The grid of step `10 ^ exponent`. -/
def Binary.grid (b : Binary) (exponent : Int) : Grid :=
  let shift := b.exponent - 2
  { point := Nat.pow 10 exponent.toNat * Nat.pow 2 (-shift).toNat
    quarter := Nat.pow 2 shift.toNat * Nat.pow 10 (-exponent).toNat }

/-- Does the `n`-th grid point round to the number? The ends of the interval belong to it when the
mantissa is even. -/
def Binary.absorbs (b : Binary) (g : Grid) (n : Nat) : Bool :=
  -- half of the way to either neighbour
  let low := (4 * b.mantissa - if b.leastOfBinade then 1 else 2) * g.quarter
  let high := (4 * b.mantissa + 2) * g.quarter
  if b.mantissa % 2 = 0 then
    decide (low ≤ n * g.point) && decide (n * g.point ≤ high)
  else
    decide (low < n * g.point) && decide (n * g.point < high)

/-- The grid point to write for the number, if one of its two neighbours on the grid rounds to it;
at equal distance the upper one. -/
def Binary.onGrid? (b : Binary) (g : Grid) : Option Nat :=
  let value := 4 * b.mantissa * g.quarter
  let below := value / g.point
  let above := below + 1
  match b.absorbs g below, b.absorbs g above with
  | true, true =>
      some (if value - below * g.point < above * g.point - value then below else above)
  | true, false => some below
  | false, true => some above
  | false, false => none

/-- Tries grids of step `10 ^ exponent`, each ten times finer than the last. -/
def Binary.search (b : Binary) : Nat → Int → Scaled
  | 0, exponent => { digits := 4 * b.mantissa, exponent }
  | tries + 1, exponent =>
      match b.onGrid? (b.grid exponent) with
      | some digits => { digits, exponent }
      | none => b.search tries (exponent - 1)

/-- The shortest decimal that reads back as the number. Seventeen digits always suffice, so the
search starts at a grid coarser than the number and stops within twenty-four steps. -/
def Binary.shortest (b : Binary) : Scaled :=
  -- the number of decimal digits in front of the point, as 0.30103 is just above the logarithm of
  -- two
  let bits : Int := b.exponent + b.mantissa.log2 + 1
  b.search 24 (bits * 30103 / 100000 + 1)

end Scriptlet.Decimal
