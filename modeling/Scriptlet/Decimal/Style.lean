import Scriptlet.Decimal.Shortest

/-! # Writing decimals

A number is written positionally, with at least one decimal, or in scientific form. Which of the two
is chosen depends on the power of ten of its first digit, and is all that a `Style` decides.
-/

namespace Scriptlet.Decimal

/-- The powers of ten of the first digit for which a number is written positionally. -/
structure Style where
  lowest : Int
  highest : Int
deriving DecidableEq, Repr

/-- The digits with a point between them, where `power` is the power of ten of the first digit: the
digits `12` read `1.2` for power 0 and `0.12` for power -1. -/
def positional (digits : List Char) (power : Int) : String :=
  if power < 0 then
    "0." ++ String.ofList (List.replicate (-power - 1).toNat '0' ++ digits)
  else
    let whole := power.toNat + 1
    let fraction := digits.drop whole
    String.ofList (digits.take whole ++ List.replicate (whole - digits.length) '0') ++ "." ++
      if fraction.isEmpty then "0" else String.ofList fraction

/-- One digit before the point, and the power of ten after an `e`. -/
def scientific (digits : List Char) (power : Int) : String :=
  let fraction := digits.drop 1
  String.ofList (digits.take 1) ++
    (if fraction.isEmpty then "" else "." ++ String.ofList fraction) ++ "e" ++ toString power

/-- The text of a positive decimal. -/
def Style.write (style : Style) (d : Scaled) : String :=
  let digits := Nat.toDigits 10 d.digits
  let power := d.exponent + digits.length - 1
  if style.lowest ≤ power ∧ power ≤ style.highest then
    positional digits power
  else
    scientific digits power

/-- The text of a floating-point number: the shortest decimal that reads back, under its sign. A NaN
has no sign, a zero keeps it. -/
def Style.float (style : Style) (x : Float) : String :=
  if x.isNaN then "NaN"
  else
    let sign := if Nat.pow 2 63 ≤ x.toBits.toNat then "-" else ""
    if x.isInf then sign ++ "inf"
    else if x == 0 then sign ++ "0.0"
    else sign ++ style.write (Binary.ofBits x.toBits).shortest

end Scriptlet.Decimal
