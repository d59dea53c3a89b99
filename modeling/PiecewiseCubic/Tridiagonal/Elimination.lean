import PiecewiseCubic.Tridiagonal.Basic

/-! # Elimination — solving three diagonals

    Equations are eliminated from the first to the last.  Of two neighbours
    the one whose coefficient of the common unknown is larger becomes the
    pivot, so a pivot may involve the two unknowns behind its own.  The
    unknowns are found on the way back. -/

namespace PiecewiseCubic

/-- One equation of a tridiagonal system, in the unknown of its row and the
    two neighbours of that. -/
structure Equation (α : Type) where
  left : α
  diag : α
  right : α
  rhs : α

/-- An equation from which the unknowns before its own are gone. -/
structure Pivot (α : Type) where
  diag : α
  right : α
  rhs : α

namespace Tridiagonal

variable {α : Type} [Scalar α] {n : Nat}

open Scalar

/-- Puts the unknown of `diag * x + right * x₁ + second * x₂ = rhs` before
    the list of the unknowns behind it. -/
def backSubstitute (diag right second rhs : α) : List α → List α
  | [] => [rhs / diag]
  | [x₁] => [(rhs - right * x₁) / diag, x₁]
  | x₁ :: x₂ :: xs =>
      (rhs - right * x₁ - second * x₂) / diag :: x₁ :: x₂ :: xs

/-- Solves a pivot equation and those behind it; there is no solution once
    the larger of two coefficients vanishes. -/
def eliminate (cur : Pivot α) : List (Equation α) → Option (List α)
  | [] => if cur.diag == 0 then none else some [cur.rhs / cur.diag]
  | next :: rest =>
      if abs next.left ≤ abs cur.diag then
        if cur.diag == 0 then none
        else
          let f := next.left / cur.diag
          (eliminate
            { diag := next.diag - f * cur.right
              right := next.right
              rhs := next.rhs - f * cur.rhs } rest).map
            (backSubstitute cur.diag cur.right 0 cur.rhs)
      else
        let f := cur.diag / next.left
        (eliminate
          { diag := cur.right - f * next.diag
            right := -f * next.right
            rhs := cur.rhs - f * next.rhs } rest).map
          (backSubstitute next.left next.diag next.right next.rhs)

/-- One unknown more after each substitution. -/
theorem backSubstitute_length (diag right second rhs : α) (xs : List α) :
    (backSubstitute diag right second rhs xs).length = xs.length + 1 := by
  rcases xs with _ | ⟨x₁, _ | ⟨x₂, xs⟩⟩ <;> rfl

/-- There is one unknown for each equation. -/
theorem eliminate_length (cur : Pivot α) (eqs : List (Equation α))
    {xs : List α} (h : eliminate cur eqs = some xs) :
    xs.length = eqs.length + 1 := by
  induction eqs generalizing cur xs with
  | nil =>
      rw [eliminate] at h
      split at h
      · exact nomatch h
      · rw [← Option.some.inj h]
        rfl
  | cons next rest ih =>
      rw [eliminate] at h
      split at h
      · split at h
        · exact nomatch h
        · obtain ⟨ys, hys, rfl⟩ := Option.map_eq_some_iff.mp h
          rw [backSubstitute_length, ih _ hys]
          rfl
      · obtain ⟨ys, hys, rfl⟩ := Option.map_eq_some_iff.mp h
        rw [backSubstitute_length, ih _ hys]
        rfl

/-- Row `i` of the three diagonals with its right-hand side. -/
def equation (M : Tridiagonal α n) (d : Vector α n) (i : Fin n) :
    Equation α where
  left := if 0 < i.val then (M.columns.get (placeBefore i)).below else 0
  diag := (M.columns.get i).diag
  right := if h : i.val + 1 < n then (M.columns.get ⟨i.val + 1, h⟩).above
    else 0
  rhs := d.get i

/-- Solves the system of the three diagonals; the corners are not looked
    at. -/
def solveBands (M : Tridiagonal α (n + 1)) (d : Vector α (n + 1)) :
    Option (Vector α (n + 1)) :=
  let first := M.equation d firstPlace
  let rest := List.ofFn fun i : Fin n => M.equation d i.succ
  match h : eliminate ⟨first.diag, first.right, first.rhs⟩ rest with
  | none => none
  | some xs =>
      some ⟨xs.toArray, by
        simpa [rest] using eliminate_length _ _ h⟩

end Tridiagonal

end PiecewiseCubic
