import PiecewiseCubic.Curve.Moments

/-! # Limited slopes — curves that stay between their points

    Slopes start as the mean of the secants on both sides.  One pass from
    left to right then looks at each segment: a flat segment gets two zero
    slopes, a left slope against the secant on either side becomes zero, and
    a pair of slopes that is too steep is scaled down to three times the
    secant in the norm of the plane. -/

namespace PiecewiseCubic.Limiter

variable {α : Type} [Scalar α] {m : Nat}

open Scalar

/-- A segment with a secant below this bound in magnitude is flat. -/
def flat : α := 1e-50

/-- What the pass makes of the slopes of one segment. -/
inductive Limited (α : Type) where
  | flat
  | wrongSign
  | steep (left right : α)
  | kept

/-- Looks at the slopes `left` and `right` of a segment with the given
    secant; `before` is the secant of the segment before it. -/
def judge (before : Option α) (secant left right : α) : Limited α :=
  if abs secant < flat then .flat
  else
    let a := left / secant
    let b := right / secant
    if a < 0 ∨ (before.any fun s => decide (left * s < 0)) = true then
      .wrongSign
    else if 9 < pow a 2 + pow b 2 then
      let tau := 3 / sqrt (pow a 2 + pow b 2)
      .steep (tau * a * secant) (tau * b * secant)
    else .kept

/-- Limits the slope `left` and those behind it.  Each entry of the list is
    the secant of a segment with the slope at its right end. -/
def limitFrom (before : Option α) (left : α) : List (α × α) → List α
  | [] => [left]
  | (secant, right) :: rest =>
      match judge before secant left right with
      | .flat => 0 :: limitFrom (some secant) 0 rest
      | .wrongSign => 0 :: limitFrom (some secant) right rest
      | .steep l r => l :: limitFrom (some secant) r rest
      | .kept => left :: limitFrom (some secant) right rest

/-- The slopes before the pass. -/
def initialSlopes (secants : Vector α (m + 1)) : Vector α (m + 2) :=
  Vector.ofFn (Moments.atPoint (secants.get firstPlace)
    (secants.get (Fin.last m)) fun k =>
    (secants.get k.castSucc + secants.get k.succ) / 2)

/-- There is one slope more than segments. -/
theorem limitFrom_length (before : Option α) (left : α)
    (rest : List (α × α)) :
    (limitFrom before left rest).length = rest.length + 1 := by
  induction rest generalizing before left with
  | nil => rfl
  | cons e rest ih =>
      obtain ⟨secant, right⟩ := e
      rw [limitFrom]
      cases judge before secant left right <;>
        simp only [List.length_cons, ih]

/-- The limited slopes at all points. -/
def slopes (p : Vector (Point α) (m + 2)) : Vector α (m + 2) :=
  let secants := Moments.secants p
  let start := initialSlopes secants
  let rest := List.ofFn fun k : Fin (m + 1) =>
    (secants.get k, start.get k.succ)
  ⟨(limitFrom none (start.get firstPlace) rest).toArray, by
    simp [limitFrom_length, rest]⟩

end PiecewiseCubic.Limiter
