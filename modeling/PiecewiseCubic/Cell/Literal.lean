import PiecewiseCubic.Cell
import PiecewiseCubic.Literal.Printer

/-! # Literals as cells

    A literal fills a cell with what it holds: numbers stay numbers, and
    truth values count as the numbers zero and one. -/

namespace PiecewiseCubic.Cell

/-- The double nearest to an integer. -/
def ofInt (n : Int) : Cell Float :=
  .number (Double.ofNumeral (.finite (n < 0) ⟨n.natAbs, 0⟩))

mutual

/-- The cell that a literal fills; truth values count as numbers. -/
def ofLiteral : Literal → Cell Float
  | .null => .blank
  | .bool b => ofInt b.toInt
  | .int n => ofInt n
  | .real x => .number x
  | .text s => .text s
  | .bytes _ => .record []
  | .moment _ => .record []
  | .list xs => .row (ofItems xs)
  | .pair x y => .row [ofLiteral x, ofLiteral y]
  | .set _ => .record []
  | .enclosing _ => .record []
  | .record es => .record (ofEntries es)

/-- The cells that literals fill. -/
def ofItems : List Literal → List (Cell Float)
  | [] => []
  | x :: xs => ofLiteral x :: ofItems xs

/-- The parts that the entries of a record fill. -/
def ofEntries : List (Literal × Literal) → List (String × Cell Float)
  | [] => []
  | (k, v) :: es => (k.plain, ofLiteral v) :: ofEntries es

end

end PiecewiseCubic.Cell
