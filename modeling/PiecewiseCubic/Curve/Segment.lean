import PiecewiseCubic.Polynomial.Basic

/-! # Segments — one cubic between two knots

    A knot has a position, a value and a slope.  Between two knots the curve
    is the cubic with the values and slopes of both, written in the basis of
    Hermite.  The same cubic can be expanded around its left knot, or in
    powers of the position itself. -/

namespace PiecewiseCubic

/-- A sampling point together with the slope of the curve there. -/
structure Knot (α : Type) where
  x : α
  y : α
  slope : α
  deriving Repr

/-- Two neighbouring knots. -/
structure Segment (α : Type) where
  left : Knot α
  right : Knot α

/-- The derivatives of a curve that can be asked for. -/
inductive Order where
  | value
  | first
  | second
  | third
  deriving DecidableEq, Repr

namespace Order

/-- How often the curve is differentiated. -/
def toNat : Order → Nat
  | .value => 0
  | .first => 1
  | .second => 2
  | .third => 3

/-- The order of so many differentiations. -/
def ofInt? : Int → Option Order
  | 0 => some .value
  | 1 => some .first
  | 2 => some .second
  | 3 => some .third
  | _ => none

end Order

/-- The weights of the two values and the two slopes of a segment. -/
structure HermiteWeights (α : Type) where
  leftValue : α
  leftSlope : α
  rightValue : α
  rightSlope : α

namespace Segment

variable {α : Type} [Scalar α]

open Scalar

/-- The Hermite basis, differentiated as asked, at the fraction `t` of the
    way from the left knot to the right one. -/
def weights (t : α) : Order → HermiteWeights α
  | .value =>
      { leftValue := (2 * t - 3) * t * t + 1
        leftSlope := ((t - 2) * t + 1) * t
        rightValue := (-2 * t + 3) * t * t
        rightSlope := (t - 1) * t * t }
  | .first =>
      { leftValue := (6 * t - 6) * t
        leftSlope := (3 * t - 4) * t + 1
        rightValue := (-6 * t + 6) * t
        rightSlope := (3 * t - 2) * t }
  | .second =>
      { leftValue := 12 * t - 6
        leftSlope := 6 * t - 4
        rightValue := -12 * t + 6
        rightSlope := 6 * t - 2 }
  | .third =>
      { leftValue := 0 * t + 12
        leftSlope := 0 * t + 6
        rightValue := 0 * t - 12
        rightSlope := 0 * t + 6 }

/-- The distance between the two knots. -/
def width (s : Segment α) : α := s.right.x - s.left.x

/-- The slope of the straight line through the two knots. -/
def secant (s : Segment α) : α := (s.right.y - s.left.y) / s.width

/-- A derivative of the cubic at the position `x`. -/
def eval (s : Segment α) (order : Order) (x : α) : α :=
  let h := s.width
  let t := (x - s.left.x) / h
  let w := weights t order
  let sum := w.leftValue * s.left.y + w.leftSlope * s.left.slope * h
    + w.rightValue * s.right.y + w.rightSlope * s.right.slope * h
  match order with
  | .value => sum
  | order => sum / pow h order.toNat

/-- The cubic in the distance from the left knot. -/
def localCubic (s : Segment α) : Cubic α :=
  let h := s.width
  let m₀ := s.left.slope
  let m₁ := s.right.slope
  let secant := s.secant
  { a := (m₀ + m₁ - 2 * secant) / pow h 2
    b := (3 * secant - 2 * m₀ - m₁) / h
    c := m₀
    d := s.left.y }

/-- The cubic in the position itself. -/
def toCubic (s : Segment α) : Cubic α :=
  let p := s.localCubic
  let x₀ := s.left.x
  { a := p.a
    b := p.b - 3 * p.a * x₀
    c := p.c - 2 * p.b * x₀ + 3 * p.a * pow x₀ 2
    d := p.d - p.c * x₀ + p.b * pow x₀ 2 - p.a * pow x₀ 3 }

end Segment

end PiecewiseCubic
