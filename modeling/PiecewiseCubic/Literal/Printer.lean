import PiecewiseCubic.Literal.Basic
import PiecewiseCubic.Text.Quoted

/-! # Text of literals

    A literal is shown with its texts in quotes, or plainly: a text or a
    moment alone stands for itself, and the parts of a list or record stay as
    they are shown. -/

namespace PiecewiseCubic.Literal

/-- Items with a comma and a blank between them. -/
def commaSeparated (items : List String) : String :=
  String.intercalate ", " items

mutual

/-- The text of a literal, its texts in quotes. -/
def shown : Literal → String
  | .null => "None"
  | .bool true => "True"
  | .bool false => "False"
  | .int n => toString n
  | .real x => Double.shortestText x
  | .text s => Text.quoted s
  | .bytes bs => Text.quotedBytes bs
  | .moment m => m.shown
  | .list xs => "[" ++ commaSeparated (shownItems xs) ++ "]"
  | .pair x y => "(" ++ commaSeparated [shown x, shown y] ++ ")"
  | .set [] => "set()"
  | .set (x :: xs) =>
      "\x7b" ++ commaSeparated (shownItems (x :: xs)) ++ "\x7d"
  | .enclosing isRecord => if isRecord then "\x7b...\x7d" else "[...]"
  | .record es => "\x7b" ++ commaSeparated (shownEntries es) ++ "\x7d"

/-- The text of each item. -/
def shownItems : List Literal → List String
  | [] => []
  | x :: xs => shown x :: shownItems xs

/-- The text of each key and its value. -/
def shownEntries : List (Literal × Literal) → List String
  | [] => []
  | (k, v) :: es => (shown k ++ ": " ++ shown v) :: shownEntries es

end

/-- The text of a literal, with a text or a moment standing for itself. -/
def plain : Literal → String
  | .text s => s
  | .moment m => m.plain
  | l => shown l

end PiecewiseCubic.Literal
