import PiecewiseCubic.Tridiagonal.Elimination

/-! # Solving tridiagonal systems

    Three diagonals are solved by elimination.  The corners of a cyclic
    matrix are a change of rank one to a matrix without them, so two such
    systems are solved and combined. -/

namespace PiecewiseCubic.Tridiagonal

variable {α : Type} [Scalar α] {n : Nat}

open Scalar

/-- The first number of the column of the change of rank one.  It doubles
    the first element on the diagonal. -/
def shift (M : Tridiagonal α (n + 1)) : α :=
  -(M.columns.get firstPlace).diag

/-- The three diagonals with their first and last element changed so that
    the corners are a product of a column `u` and a row `v`. -/
def withoutCorners (M : Tridiagonal α (n + 1)) (gamma : α) :
    Tridiagonal α (n + 1) :=
  let first := M.write (.diag firstPlace)
    ((M.columns.get firstPlace).diag - gamma)
  let last := Fin.last n
  first.write (.diag last)
    ((first.columns.get last).diag - M.bottomLeft * M.topRight / gamma)

/-- The column of the change of rank one: the first number is `gamma`, the
    last one the bottom left corner. -/
def cornerColumn (M : Tridiagonal α (n + 1)) (gamma : α) :
    Vector α (n + 1) :=
  Vector.ofFn fun i =>
    if i = Fin.last n then M.bottomLeft
    else if i = firstPlace then gamma
    else 0

/-- The product of a vector with the row of the change of rank one. -/
def cornerProduct (M : Tridiagonal α (n + 1)) (gamma : α)
    (x : Vector α (n + 1)) : α :=
  x.get firstPlace + M.topRight / gamma * x.get (Fin.last n)

/-- Solves a system with corners through two systems without them. -/
def solveCyclic (M : Tridiagonal α (n + 1)) (d : Vector α (n + 1)) :
    Option (Vector α (n + 1)) := do
  let gamma := M.shift
  let T := M.withoutCorners gamma
  let y ← T.solveBands d
  let z ← T.solveBands (M.cornerColumn gamma)
  let vy := M.cornerProduct gamma y
  let vz := M.cornerProduct gamma z
  return Vector.ofFn fun i => y.get i - vy / (1 + vz) * z.get i

/-- Whether a corner holds anything but zero. -/
def hasCorner (M : Tridiagonal α n) : Bool :=
  !(M.topRight == 0) || !(M.bottomLeft == 0)

/-- The vector whose product with the matrix is `d`, or nothing if the
    elimination finds the matrix singular; a matrix of order one divides
    without a test. -/
def solve : {n : Nat} → Tridiagonal α n → Vector α n → Option (Vector α n)
  | 0, _, d => some d
  | 1, M, d => some #v[d[0] / M.columns[0].diag]
  | n + 2, M, d =>
      if M.cyclic = false ∨ n = 0 ∨ M.hasCorner = false then M.solveBands d
      else M.solveCyclic d

end PiecewiseCubic.Tridiagonal
