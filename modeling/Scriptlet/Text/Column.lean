/-! # Columns

Text set in columns of a fixed width, counted in characters. A text that is too wide keeps its own
width.
-/

namespace Scriptlet.Text

/-- The text at the left edge of a column. -/
def padRight (width : Nat) (text : String) : String :=
  text ++ String.ofList (List.replicate (width - text.length) ' ')

/-- The text at the right edge of a column filled with `fill`. -/
def padLeft (width : Nat) (fill : Char) (text : String) : String :=
  String.ofList (List.replicate (width - text.length) fill) ++ text

end Scriptlet.Text
