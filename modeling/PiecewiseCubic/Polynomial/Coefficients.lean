import PiecewiseCubic.Cell.Table
import PiecewiseCubic.Polynomial.Roots

/-! # Polynomials whose coefficients are in cells

    Leading coefficients that are zero are dropped before anything else is
    looked at; if only the last one is left, it need not even be a number. -/

namespace PiecewiseCubic

/-- The degree of a polynomial before its coefficients are known. -/
inductive Degree where
  | linear
  | quadratic
  | cubic
  deriving DecidableEq, Repr

/-- How many coefficients a polynomial has. -/
def Degree.coefficients : Degree → Nat
  | .linear => 2
  | .quadratic => 3
  | .cubic => 4

namespace Roots

variable {α : Type} [Scalar α]

open Scalar

/-- The coefficients behind the leading ones that are zero. -/
def dropZeros : List (Cell α) → List (Cell α)
  | .number a :: cs => if a == 0 then dropZeros cs else .number a :: cs
  | cs => cs

/-- The roots of the polynomial with the given coefficients, the leading one
    of which is not zero. -/
def ofList : List α → Except (Fault α) (List α)
  | [a, b] => .ok (linear a b)
  | [a, b, c] => .ok (quadratic a b c)
  | [a, b, c, d] =>
      match cubic .fault a b c d with
      | .ok roots => .ok roots
      | .error cause => .error (.roots cause)
  | _ => .ok []

/-- The roots of a polynomial of the given degree. -/
def ofCells (degree : Degree) (coefficients : Cell α) :
    Except (Fault α) (List α) := do
  match coefficients.items? with
  | none => .error .wrongKind
  | some cs =>
      if cs.length ≠ degree.coefficients then .error .wrongKind
      match dropZeros cs with
      | _ :: _ :: _ => ofList (← (dropZeros cs).mapM Cell.number?)
      | _ => return []

end Roots

end PiecewiseCubic
