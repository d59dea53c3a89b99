import PiecewiseCubic.Curve.Basic
import PiecewiseCubic.Fault

/-! # Evaluating a curve at one position

    Inside its range a curve is evaluated on the segment that the position
    belongs to.  Outside it is a straight line through the nearer end, which
    a caller has to ask for. -/

namespace PiecewiseCubic.Curve

variable {α : Type} [Scalar α]

open Scalar

/-- A derivative of the curve with its straight continuations. -/
def continued (c : Curve α) (order : Order) (x : α) : α :=
  match order with
  | .value | .first =>
      if x < c.xMin then tail c.firstKnot c.leftSlope order x
      else if c.xMax < x then tail c.lastKnot c.rightSlope order x
      else c.inside order x
  | .second | .third => if c.covers x then c.inside order x else 0

/-- A derivative of the curve at a position, which must lie in the range
    unless the continuations are asked for. -/
def eval (c : Curve α) (order : Order) (extrapolate : Bool) (x : α) :
    Except (Fault α) α :=
  if extrapolate || c.covers x then .ok (c.continued order x)
  else .error .outsideRange

end PiecewiseCubic.Curve
