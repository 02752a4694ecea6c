/-! # Sets of code points

A property of characters is a list of closed ranges of code points, in increasing order. Membership
walks the list and stops at the first range that starts above the code point, so characters at the
low end of the table are decided at once.
-/

namespace Scriptlet.Text

/-- A set of code points: closed ranges, disjoint and in increasing order. -/
abbrev CodePoints := List (Nat × Nat)

/-- Does one of the ranges hold the code point? -/
def CodePoints.covers : CodePoints → Nat → Bool
  | [], _ => false
  | (low, high) :: rest, n => decide (low ≤ n) && (decide (n ≤ high) || covers rest n)

/-- A character has a property when its code point is in the property's set. -/
def CodePoints.contains (set : CodePoints) (c : Char) : Bool :=
  set.covers c.toNat

end Scriptlet.Text
