import PiecewiseCubic.Curve.Evaluate
import PiecewiseCubic.Monotonicity

/-! # Monotonicity of a curve over an interval

    The interval is cut into the straight continuations and the parts of the
    segments that it covers.  On a segment the derivative is a quadratic:
    without a root inside it has one sign there.  Coefficients below `1e-20`
    count as zero, and a root closer to an end than a tenth billionth of the
    part's length is not inside. -/

namespace PiecewiseCubic

variable {α : Type} [Scalar α]

open Scalar

/-- Coefficients and slopes below this bound count as zero. -/
def negligible : α := 1e-20

/-- The part of an interval next to its ends in which roots are ignored. -/
def rootMargin : α := 1e-10

/-- A direction from the sign of a slope, downwards unless it is positive. -/
def Monotonicity.ofSign (slope : α) : Monotonicity :=
  if 0 < slope then .increasing else .decreasing

namespace Segment

/-- The derivative of the local cubic, as the coefficients of a quadratic. -/
def slopeCoefficients (s : Segment α) : α × α × α :=
  let p := s.localCubic
  (3 * p.a, 2 * p.b, p.c)

/-- Whether a root lies strictly between two positions, away from both. -/
def hasRootInside (s₀ s₁ : α) (roots : List α) : Bool :=
  let eps := rootMargin * (s₁ - s₀)
  roots.any fun r => decide (s₀ + eps < r) && decide (r < s₁ - eps)

/-- The monotonicity between two positions of a cubic with the derivative
    `a * s ^ 2 + b * s + c`. -/
def trendOfSlope (a b c s₀ s₁ : α) : Monotonicity :=
  let signAt (s : α) := Monotonicity.ofSign ((a * s + b) * s + c)
  let middle := (s₀ + s₁) / 2
  let byRoots (roots : List α) :=
    if hasRootInside s₀ s₁ roots then .mixed else signAt middle
  if abs a < negligible ∧ abs b < negligible ∧ abs c < negligible then
    .constant
  else if a == 0 then byRoots (Roots.linear b c)
  else
    let disc := b * b - 4 * a * c
    if disc < 0 then signAt middle
    else if disc == 0 then
      if -b / (2 * a) == s₀ then signAt s₁ else signAt s₀
    else byRoots (Roots.quadratic a b c)

/-- The monotonicity of a segment between two positions. -/
def trend (s : Segment α) (x₀ x₁ : α) : Monotonicity :=
  let (a, b, c) := s.slopeCoefficients
  trendOfSlope a b c (x₀ - s.left.x) (x₁ - s.left.x)

end Segment

namespace Curve

/-- The numbers of the segments from the one of `lo` to the one of `hi`. -/
def segmentsBetween (c : Curve α) (lo hi : α) : List (Fin (c.inner + 1)) :=
  let first := c.segmentIndex lo
  let last := c.segmentIndex hi
  (List.finRange (c.inner + 1)).filter fun i => first ≤ i && i ≤ last

/-- The segments of both ends and those between them. -/
theorem mem_segmentsBetween (c : Curve α) {lo hi : α}
    {i : Fin (c.inner + 1)} :
    i ∈ c.segmentsBetween lo hi
      ↔ c.segmentIndex lo ≤ i ∧ i ≤ c.segmentIndex hi := by
  rw [segmentsBetween, List.mem_filter, Bool.and_eq_true, decide_eq_true_eq,
    decide_eq_true_eq]
  exact and_iff_right (List.mem_finRange i)

/-- The monotonicity of the part of a segment between two positions, if there
    is such a part. -/
def partTrend? (c : Curve α) (lo hi : α) (i : Fin (c.inner + 1)) :
    Option Monotonicity :=
  let s := c.segment i
  let left := Scalar.max lo s.left.x
  let right := Scalar.min hi s.right.x
  if left < right then some (s.trend left right) else none

/-- The monotonicities of the pieces of an interval, from left to right. -/
def pieceTrends (c : Curve α) (x₀ x₁ : α) : List Monotonicity :=
  let lo := Scalar.max x₀ c.xMin
  let hi := Scalar.min x₁ c.xMax
  (if x₀ < c.xMin then [.ofSlope c.leftSlope negligible] else [])
    ++ (if lo < hi then
        (c.segmentsBetween lo hi).filterMap (c.partTrend? lo hi)
      else [])
    ++ (if c.xMax < x₁ then [.ofSlope c.rightSlope negligible] else [])

/-- The monotonicity of the curve over the interval between two positions in
    any order, which must lie in the range unless the continuations are asked
    for. -/
def trend (c : Curve α) (x₀ x₁ : α) (extrapolate : Bool) :
    Except (Fault α) Monotonicity :=
  if x₀ == x₁ then .error .emptyInterval
  else
    let (x₀, x₁) := if x₁ < x₀ then (x₁, x₀) else (x₀, x₁)
    if extrapolate || (decide (c.xMin ≤ x₀) && decide (x₁ ≤ c.xMax)) then
      .ok (Monotonicity.reduce .constant (c.pieceTrends x₀ x₁))
    else .error .outsideRange

end Curve

end PiecewiseCubic
