import PiecewiseCubic.Curve.Evaluate
import PiecewiseCubic.Tensor

/-! # Evaluating a curve at many positions at once

    Positions are looked up one after the other.  Each look-up starts from
    the last one: a position that is not before its predecessor is sought
    from the place found there on, any other one only before that place.  All
    positions are then moved into the range, evaluated on their segments, and
    those outside replaced by the straight continuations. -/

namespace PiecewiseCubic.Curve

variable {α : Type} [Scalar α]

open Scalar

/-- Among the knots with index from `low` up to but not at `high`, the index
    of the first one behind `x`, by halving; `high` if there is none. -/
def upperBound (c : Curve α) (x : α) (low high : Nat)
    (le : high ≤ c.inner + 2) : Nat :=
  if h : low < high then
    let mid := low + (high - low) / 2
    if notBehind c.knots[mid].x x then c.upperBound x (mid + 1) high le
    else c.upperBound x low mid (by omega)
  else low
  termination_by high - low

/-- How many knots are not behind each of the positions.  `last` is the
    position looked up before and `found` its answer. -/
def countsFrom (c : Curve α) (last : α) (found : Nat) : List α → List Nat
  | [] => []
  | x :: xs =>
      let next :=
        if notBehind last x then
          c.upperBound x found (c.inner + 2) (Nat.le_refl _)
        else
          c.upperBound x 0 (Nat.min (found + 1) (c.inner + 2))
            (Nat.min_le_right _ _)
      next :: c.countsFrom x next xs

/-- How many knots are not behind each of the positions. -/
def counts (c : Curve α) : List α → List Nat
  | [] => []
  | x :: xs => c.countsFrom x 0 (x :: xs)

/-- The segment that begins with the last of so many knots. -/
def segmentOfCount (c : Curve α) (count : Nat) : Fin (c.inner + 1) :=
  ⟨Nat.min (count - 1) c.inner,
    Nat.lt_succ_of_le (Nat.min_le_right _ _)⟩

/-- Moves a position into the range; what is undefined stays so. -/
def confine (c : Curve α) (x : α) : α :=
  let above := if isUndefined x || decide (c.xMin < x) then x else c.xMin
  if isUndefined above || decide (above < c.xMax) then above else c.xMax

/-- A derivative at a position, given how many knots are not behind it. -/
def sampleAt (c : Curve α) (order : Order) (x : α) (count : Nat) : α :=
  if c.xMax < x then tail c.lastKnot c.rightSlope order x
  else if x < c.xMin then tail c.firstKnot c.leftSlope order x
  else (c.segment (c.segmentOfCount count)).eval order (c.confine x)

/-- Whether all positions may be asked for. -/
def admits (c : Curve α) (extrapolate : Bool) (xs : List α) : Bool :=
  extrapolate
    || !(xs.any (fun x => decide (x < c.xMin))
      || xs.any (fun x => decide (c.xMax < x)))

/-- A derivative at all positions of a tensor, arranged as they are. -/
def sample (c : Curve α) (order : Order) (extrapolate : Bool)
    (positions : Tensor α) : Except (Fault α) (Tensor α) :=
  let xs := positions.entries
  if c.admits extrapolate xs then
    .ok (positions.withEntries
      (List.zipWith (c.sampleAt order) xs (c.counts xs)))
  else .error .outsideRange

end PiecewiseCubic.Curve
