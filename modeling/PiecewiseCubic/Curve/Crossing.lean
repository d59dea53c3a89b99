import PiecewiseCubic.Curve.Trend

/-! # Crossings of a curve with a cubic polynomial

    On each segment the crossings are the roots of the difference of two
    cubics.  A crossing at a knot is found on both sides of it, so one that is
    close to the crossing before it is not counted again.  Exactly one
    crossing is expected. -/

namespace PiecewiseCubic.Curve

variable {α : Type} [Scalar α]

open Scalar

/-- The positions between `x₀` and `x₁` where a segment crosses the
    polynomial, in ascending order. -/
def segmentCrossings (s : Segment α) (p : Cubic α) (x₀ x₁ : α) :
    Except RootFault (List α) := do
  let origin := s.left.x
  let diff := s.localCubic.sub (p.shift origin)
  let roots ← Roots.cubic .infinite diff.a diff.b diff.c diff.d
  let lo := Scalar.max origin x₀
  let hi := Scalar.min s.right.x x₁
  return (roots.filter fun r =>
    decide (lo - origin ≤ r) && decide (r ≤ hi - origin)).map fun r =>
      clamp (origin + r) lo hi

/-- Puts a crossing before those found so far, the last one first, unless it
    is close to the last one. -/
def addCrossing (found : List α) (r : α) : List α :=
  match found with
  | [] => [r]
  | last :: _ => if isClose r last then found else r :: found

/-- Collects the crossings on the given segments, the last one first, and
    stops after a segment that brings their count above one. -/
def collectCrossings (c : Curve α) (p : Cubic α) (x₀ x₁ : α)
    (found : List α) :
    List (Fin (c.inner + 1)) → Except (Fault α) (List α)
  | [] => .ok found
  | i :: is =>
      match segmentCrossings (c.segment i) p x₀ x₁ with
      | .error cause => .error (.roots cause)
      | .ok roots =>
          let found := roots.foldl addCrossing found
          if 1 < found.length then .error (.crossings found.length x₀ x₁)
          else c.collectCrossings p x₀ x₁ found is

/-- The only crossing with a polynomial between two positions in any order,
    both in the range. -/
def crossing (c : Curve α) (x₀ x₁ : α) (p : Cubic α) :
    Except (Fault α) α :=
  if c.covers x₀ && c.covers x₁ then
    let (x₀, x₁) := if x₁ < x₀ then (x₁, x₀) else (x₀, x₁)
    match c.collectCrossings p x₀ x₁ [] (c.segmentsBetween x₀ x₁) with
    | .error fault => .error fault
    | .ok [r] => .ok r
    | .ok found => .error (.crossings found.length x₀ x₁)
  else .error .outsideRange

end PiecewiseCubic.Curve
