import PiecewiseCubic.Curve.Segment
import PiecewiseCubic.Family

/-! # Curves — knots, range and segments

    A curve has two knots at least, hence one segment at least.  A position
    belongs to the last segment that does not begin behind it; positions
    before the first knot belong to the first segment. -/

namespace PiecewiseCubic

/-- A curve through `inner + 2` knots. -/
structure Curve (α : Type) where
  family : Family
  /-- The number of knots between the first and the last one. -/
  inner : Nat
  knots : Vector (Knot α) (inner + 2)

namespace Curve

variable {α : Type} [Scalar α]

open Scalar

/-- The first knot. -/
def firstKnot (c : Curve α) : Knot α := c.knots[0]

/-- The last knot. -/
def lastKnot (c : Curve α) : Knot α := c.knots[c.inner + 1]

/-- The position of the first knot. -/
def xMin (c : Curve α) : α := c.firstKnot.x

/-- The position of the last knot. -/
def xMax (c : Curve α) : α := c.lastKnot.x

/-- Whether a position lies in the range of the knots. -/
def covers (c : Curve α) (x : α) : Bool :=
  decide (c.xMin ≤ x) && decide (x ≤ c.xMax)

/-- The segment between two neighbouring knots. -/
def segment (c : Curve α) (i : Fin (c.inner + 1)) : Segment α where
  left := c.knots[i.val]
  right := c.knots[i.val + 1]

/-- Halves the knots from `low` to `high` until two neighbours are left, going
    to the lower half if the knot between the halves is behind `x`. -/
def bisect (c : Curve α) (x : α) (low high : Nat) (lt : low < high)
    (le : high ≤ c.inner + 1) : Fin (c.inner + 1) :=
  if h : low + 1 < high then
    let mid := (low + high) / 2
    if x < c.knots[mid].x then c.bisect x low mid (by omega) (by omega)
    else c.bisect x mid high (by omega) le
  else ⟨low, by omega⟩
  termination_by high - low

/-- The segment that a position belongs to. -/
def segmentIndex (c : Curve α) (x : α) : Fin (c.inner + 1) :=
  c.bisect x 0 (c.inner + 1) (by omega) (by omega)

/-- A derivative at `x`, from the segment that `x` belongs to. -/
def inside (c : Curve α) (order : Order) (x : α) : α :=
  (c.segment (c.segmentIndex x)).eval order x

/-- The slope of the straight continuation before the first knot. -/
def leftSlope (c : Curve α) : α := (c.segment 0).eval .first c.xMin

/-- The slope of the straight continuation behind the last knot. -/
def rightSlope (c : Curve α) : α :=
  (c.segment (Fin.last c.inner)).eval .first c.xMax

/-- A derivative of the straight continuation through a knot. -/
def tail (knot : Knot α) (slope : α) (order : Order) (x : α) : α :=
  match order with
  | .value => knot.y + slope * (x - knot.x)
  | .first => slope
  | .second => 0
  | .third => 0

end Curve

end PiecewiseCubic
