import PiecewiseCubic.Polynomial.Basic

/-! # Real roots — closed forms up to degree three

    Each function answers the distinct real roots in ascending order.  A
    vanishing leading coefficient leaves the polynomial of the lower degree,
    and the zero polynomial has no isolated roots.  The cubic is depressed by
    `x = t - b / 3`, solved by Cardano's formula or in its trigonometric form,
    and each root is polished by two Newton steps. -/

namespace PiecewiseCubic

/-- Why a cubic could not be solved. -/
inductive RootFault where
  /-- A power of a finite number left the range of finite numbers. -/
  | powerOverflow
  /-- The square root of a negative number was asked for. -/
  | negativeSqrt
  deriving DecidableEq, Repr

/-- Whether a power that overflows is a fault or just infinite. -/
inductive Overflow where
  | fault
  | infinite
  deriving DecidableEq, Repr

namespace Roots

variable {α : Type} [Scalar α]

open Scalar

/-- The roots of `a * x + b`. -/
def linear (a b : α) : List α :=
  if a == 0 then [] else [-b / a]

/-- Two numbers in ascending order, swapped only if the second is below. -/
def ascending (r s : α) : List α :=
  if s < r then [s, r] else [r, s]

/-- The roots of `a * x ^ 2 + b * x + c`.  The two simple roots come from the
    sum whose terms have one sign, so nothing cancels. -/
def quadratic (a b c : α) : List α :=
  if a == 0 then linear b c
  else
    let disc := b * b - 4 * a * c
    if disc < 0 then []
    else if disc == 0 then [-b / (2 * a)]
    else
      let q := -0.5 * (b + copySign (sqrt disc) b)
      ascending (q / a) (c / q)

/-- The third power, with an overflow answered as asked. -/
def cube (onOverflow : Overflow) (x : α) : Except RootFault α :=
  let y := pow x 3
  if onOverflow = .fault ∧ isFinite x = true ∧ isFinite y = false then
    .error .powerOverflow
  else .ok y

/-- The square root, refused below zero. -/
def squareRoot (x : α) : Except RootFault α :=
  if x < 0 then .error .negativeSqrt else .ok (sqrt x)

/-- The cosine of three times the angle of the largest root of
    `t ^ 3 + p * t + q`, where `scale` is the square root of `-3 / p`. -/
def tripleAngleCosine (p q scale : α) : α := 3 * q / (2 * p) * scale

/-- The three roots of `t ^ 3 + p * t + q` as cosines of angles a third of a
    turn apart; rounding is kept out of the arc cosine by clamping its
    argument. -/
def trigonometric (p q : α) : Except RootFault (List α) := do
  let radius ← squareRoot (-p / 3)
  let scale ← squareRoot (-3 / p)
  let r := 2 * radius
  let phi := acos (clamp (tripleAngleCosine p q scale) (-1) 1) / 3
  return [0, 1, 2].map fun k =>
    r * cos (phi - 2 * pi * Scalar.ofNat k / 3)

/-- The real roots of `t ^ 3 + p * t + q`, where `w` is a quarter of `q ^ 2`
    plus a 27th of `p ^ 3`. -/
def depressed (p q w : α) : Except RootFault (List α) :=
  if p == 0 then .ok [cbrt (-q)]
  else if 0 < w then
    let s := sqrt w
    .ok [cbrt (-q / 2 + s) + cbrt (-q / 2 - s)]
  else if w == 0 then .ok [3 * q / p, -3 * q / (2 * p)]
  else trigonometric p q

/-- So many Newton steps on `x ^ 3 + b * x ^ 2 + c * x + d`, fewer if the
    derivative vanishes. -/
def newton (b c d : α) : Nat → α → α
  | 0, x => x
  | n + 1, x =>
      let fx := ((x + b) * x + c) * x + d
      let dfx := (3 * x + 2 * b) * x + c
      if dfx == 0 then x else newton b c d n (x - fx / dfx)

/-- The number of Newton steps that polish a root. -/
def polishSteps : Nat := 2

/-- The real roots of `x ^ 3 + b * x ^ 2 + c * x + d`. -/
def monic (onOverflow : Overflow) (b c d : α) :
    Except RootFault (List α) := do
  let offset := b / 3
  let p := c - b * b / 3
  let b3 ← cube onOverflow b
  let q := 2 * b3 / 27 - b * c / 3 + d
  let p3 ← cube onOverflow p
  let ts ← depressed p q (q * q / 4 + p3 / 27)
  return distinct
    (sortAscending (ts.map fun t => newton b c d polishSteps (t - offset)))

/-- The real roots of `a * x ^ 3 + b * x ^ 2 + c * x + d`. -/
def cubic (onOverflow : Overflow) (a b c d : α) :
    Except RootFault (List α) :=
  if a == 0 then .ok (quadratic b c d)
  else monic onOverflow (b / a) (c / a) (d / a)

end Roots

end PiecewiseCubic
