import PiecewiseCubic.Cell.Table
import PiecewiseCubic.Monotonicity

/-! # Straight lines whose slope is in a cell -/

namespace PiecewiseCubic.Monotonicity

variable {α : Type} [Scalar α]

/-- The monotonicity of a straight line, given its slope and the magnitude up
    to which a slope counts as none. -/
def ofCells (slope tol : Cell α) : Except (Fault α) Monotonicity := do
  let slope ← slope.number?
  let tol ← tol.number?
  return ofSlope slope tol

end PiecewiseCubic.Monotonicity
