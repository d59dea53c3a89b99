import PiecewiseCubic.Scalar

/-! # Cubic polynomials — four coefficients and what they denote

    A cubic is kept by its coefficients, highest power first.  `eval` is its
    value and `shift` re-expands it around another origin. -/

namespace PiecewiseCubic

/-- The polynomial `a * x ^ 3 + b * x ^ 2 + c * x + d`. -/
structure Cubic (α : Type) where
  a : α
  b : α
  c : α
  d : α
  deriving Repr

namespace Cubic

variable {α : Type} [Scalar α]

open Scalar

/-- The value of the polynomial at `x`, by Horner's rule. -/
def eval (p : Cubic α) (x : α) : α :=
  ((p.a * x + p.b) * x + p.c) * x + p.d

/-- The coefficients of `s ↦ p (origin + s)`. -/
def shift (p : Cubic α) (origin : α) : Cubic α where
  a := p.a
  b := 3 * p.a * origin + p.b
  c := (3 * p.a * origin + 2 * p.b) * origin + p.c
  d := p.eval origin

/-- The difference of two polynomials, coefficient by coefficient. -/
def sub (p q : Cubic α) : Cubic α where
  a := p.a - q.a
  b := p.b - q.b
  c := p.c - q.c
  d := p.d - q.d

end Cubic

end PiecewiseCubic
