import PiecewiseCubic.Curve.Trend

/-! # Tables of a curve — evenly spaced positions

    A table divides a range into intervals and has a line for each of their
    ends: the position, the value and the slope there, and how the curve runs
    from there to the next position.  Lines are written until one of them is
    refused. -/

namespace PiecewiseCubic

/-- One line of a table. -/
structure TableLine (α : Type) where
  x : α
  value : α
  slope : α
  /-- The code of the monotonicity over the next interval. -/
  flag : Int
  deriving Repr

/-- The lines that were written and, if that was not all, the fault that
    stopped the writing. -/
structure Table (α : Type) where
  lines : List (TableLine α)
  fault : Option (Fault α)

namespace Curve

variable {α : Type} [Scalar α]

open Scalar

/-- The line at a position.  In the range the curve is asked for itself;
    outside its continuations are, which are straight and rise only if their
    slope is positive. -/
def lineAt (c : Curve α) (step x : α) :
    Except (Fault α) (TableLine α) := do
  if c.covers x then
    let value ← c.eval .value false x
    let slope ← c.eval .first false x
    let m ← c.trend x (x + step) true
    return ⟨x, value, slope, m.code⟩
  else
    let slope ← c.eval .first true x
    let value ← c.eval .value true x
    return ⟨x, value, slope, (Monotonicity.ofSign slope).code⟩

/-- The lines at the given positions, up to the first that is refused. -/
def linesAt (c : Curve α) (step : α) : List α → Table α
  | [] => ⟨[], none⟩
  | x :: xs =>
      match c.lineAt step x with
      | .error fault => ⟨[], some fault⟩
      | .ok line =>
          let rest := c.linesAt step xs
          ⟨line :: rest.lines, rest.fault⟩

/-- The length of each of so many intervals that a range is divided into. -/
def stepOf (x₀ x₁ : α) (intervals : Int) : Except (Fault α) α :=
  let size : α := Scalar.ofNat intervals.natAbs
  if intervals = 0 then .error .noIntervals
  else if isFinite size = false then .error .tooManyIntervals
  else .ok ((x₁ - x₀) / (if intervals < 0 then -size else size))

/-- The positions that divide a range, both ends included. -/
def gridOf (x₀ step : α) (intervals : Int) : List α :=
  (List.range (intervals + 1).toNat).map fun i =>
    x₀ + Scalar.ofNat i * step

/-- The table of the range between two positions in any order. -/
def table (c : Curve α) (x₀ x₁ : α) (intervals : Int) : Table α :=
  let first := Scalar.min x₀ x₁
  let last := Scalar.max x₀ x₁
  match stepOf first last intervals with
  | .error fault => ⟨[], some fault⟩
  | .ok step => c.linesAt step (gridOf first step intervals)

end Curve

namespace TableLine

/-- The significant digits of the numbers in a line. -/
def digits : Nat := 10

/-- The text of a line. -/
def text (l : TableLine Float) : String :=
  Double.roundedText digits l.x ++ " " ++ Double.roundedText digits l.value
    ++ " " ++ Double.roundedText digits l.slope ++ " " ++ toString l.flag

end TableLine

end PiecewiseCubic
