import PiecewiseCubic.CommandLine
import PiecewiseCubic.Session
import PiecewiseCubic.Settings

/-! # Tabulation — the table that settings and a command line ask for

    The settings name the family and the count of intervals; a command line
    may give the slopes at both ends and the range of the table.  Unless the
    settings let the curve be continued, the range is moved into that of the
    curve. -/

namespace PiecewiseCubic.Tabulation

variable {α : Type}

open CommandLine (Request)

/-- The boundary that is asked for.  Slopes on the command line ask for the
    full family. -/
def boundary (s : Settings) (r : Request α) :
    Except Boundary.Mismatch (Boundary α) :=
  let family :=
    if r.m0.isSome || r.m1.isSome then .text Family.full.name
    else s.get "spline_type"
  Boundary.ofLiteral family r.m0 r.m1

variable [Scalar α]

/-- The range of the table: as asked for, else that of the curve. -/
def range (s : Settings) (r : Request α) (c : Curve α) : α × α :=
  let x₀ := r.x0.getD c.xMin
  let x₁ := r.x1.getD c.xMax
  if (s.get "extrapolate").isTruthy then (x₀, x₁)
  else
    (Scalar.clamp x₀ c.xMin c.xMax, Scalar.clamp x₁ c.xMin c.xMax)

/-- The table of a curve with a count of intervals from the settings. -/
def table (s : Settings) (r : Request α) (c : Curve α) : Table α :=
  match Session.intervals (s.get "npoints") with
  | .error fault => ⟨[], some fault⟩
  | .ok n =>
      let (x₀, x₁) := range s r c
      c.table x₀ x₁ n

/-- The curve through points, with what was noticed when it was fitted. -/
def fit (s : Settings) (r : Request α) (points : List (Point α)) :
    Except Boundary.Mismatch (Noticed α (Curve α)) :=
  (boundary s r).map fun b =>
    Curve.fit b (s.get "sort_inputs").isTruthy points

/-- The table of the curve through points, with what was noticed when the
    curve was fitted. -/
def ofPoints (s : Settings) (r : Request α) (points : List (Point α)) :
    Except Boundary.Mismatch (Noticed α (Table α)) :=
  (fit s r points).map fun fitted => fitted.map (table s r)

end PiecewiseCubic.Tabulation
