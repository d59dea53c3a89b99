import PiecewiseCubic.Proofs.Curve.Fit
import PiecewiseCubic.Proofs.Tridiagonal.Soundness

/-! # Systems of checked scalars

    The segments between ascending points have widths that are not zero, and
    neither is the sum of two of them.  So all that is divided by on the way
    to a system, and from moments to slopes, is not zero: between checked
    scalars the rows, the right-hand sides and the slopes are those between
    reals. -/

namespace PiecewiseCubic

open Checked

/-- The row of checked scalars. -/
def Row.checked (r : Row ℝ) : Row Checked :=
  ⟨.number r.left, .number r.diag, .number r.right⟩

/-- The point with checked coordinates. -/
def Point.checked (p : Point ℝ) : Point Checked :=
  ⟨.number p.x, .number p.y⟩

namespace Tridiagonal

variable {n : ℕ}

theorem ofRows_checked (row : Fin n → Row ℝ) :
    ofRows (fun i => (row i).checked) = (ofRows row).checked := by
  rw [ofRows, ofRows, checked, Vector.map_ofFn]
  congr 1
  refine congrArg Vector.ofFn (funext fun j => ?_)
  rw [Function.comp_apply, Column.checked]
  congr 1
  · split_ifs <;> rfl
  · split_ifs <;> rfl

theorem ofCyclicRows_checked (row : Fin (n + 2) → Row ℝ) :
    ofCyclicRows (fun i => (row i).checked) = (ofCyclicRows row).checked := by
  have hrows := ofRows_checked row
  have hfolded := ofRows_checked fun i => foldedRow (row i)
  rw [ofCyclicRows, ofCyclicRows, apply_ite checked]
  -- rows of order two are folded, longer ones leave two corners
  refine if_congr Iff.rfl ?_ ?_
  · exact congrArg (fun M : Tridiagonal Checked (n + 2) =>
      { M with cyclic := true }) hfolded
  · exact congrArg (fun M : Tridiagonal Checked (n + 2) =>
      { M with
        cyclic := true
        topRight := (row firstPlace).checked.left
        bottomLeft := (row (Fin.last (n + 1))).checked.right }) hrows

end Tridiagonal

namespace Moments

open Tridiagonal

variable {m : ℕ}

/-! ## Widths and secants -/

theorem widths_checked (p : Vector (Point ℝ) (m + 2)) :
    widths (p.map Point.checked) = (widths p).map number := by
  rw [widths, widths, Vector.map_ofFn]
  refine congrArg Vector.ofFn (funext fun i => ?_)
  rw [Vector.get_map, Vector.get_map]
  rfl

theorem secants_checked {p : Vector (Point ℝ) (m + 2)} (asc : Ascending p) :
    secants (p.map Point.checked) = (secants p).map number := by
  rw [secants, secants, Vector.map_ofFn, widths_checked]
  refine congrArg Vector.ofFn (funext fun i => ?_)
  rw [Vector.get_map, Vector.get_map, Vector.get_map]
  exact number_div _ (asc.widths_pos i).ne'

/-! ## Rows and right-hand sides -/

theorem innerRow_checked {l r : ℝ} (hl : 0 < l) (hr : 0 < r) :
    innerRow (number l) (number r) = (innerRow l r).checked := by
  have hshare : number r / number (l + r) = number (r / (l + r)) :=
    number_div r (add_pos hl hr).ne'
  exact congrArg (fun share : Checked =>
    (⟨number 1 - share, number 2, share⟩ : Row Checked)) hshare

theorem bend_checked {l r : ℝ} (hl : 0 < l) (hr : 0 < r)
    (before after : ℝ) :
    bend (number l) (number r) (number before) (number after)
      = number (bend l r before after) :=
  congrArg (· * number (after - before)) (number_div _ (add_pos hl hr).ne')

theorem endBend_checked {width : ℝ} (hwidth : 0 < width)
    (before after : ℝ) :
    endBend (number width) (number before) (number after)
      = number (endBend width before after) :=
  congrArg (· * number (after - before)) (number_div _ hwidth.ne')

section Open

variable {p : Vector (Point ℝ) (m + 2)} (asc : Ascending p)

include asc

theorem openMatrix_checked (first last : Row ℝ) :
    openMatrix (p.map Point.checked) first.checked last.checked
      = (openMatrix p first last).checked := by
  rw [openMatrix, openMatrix, widths_checked, ← ofRows_checked]
  refine congrArg ofRows (funext fun i => ?_)
  rw [← atPoint_map Row.checked]
  congr 1
  funext k
  rw [Vector.get_map, Vector.get_map]
  exact innerRow_checked (asc.widths_pos _) (asc.widths_pos _)

theorem openBends_checked (d₀ d₁ : ℝ) :
    openBends (p.map Point.checked) (number d₀) (number d₁)
      = (openBends p d₀ d₁).map number := by
  rw [openBends, openBends, widths_checked, secants_checked asc,
    Vector.map_ofFn]
  refine congrArg Vector.ofFn (funext fun i => ?_)
  rw [Function.comp_apply, ← atPoint_map number]
  congr 1
  funext k
  simp only [Vector.get_map]
  exact bend_checked (asc.widths_pos _) (asc.widths_pos _) _ _

theorem naturalMatrix_checked :
    naturalMatrix (p.map Point.checked) = (naturalMatrix p).checked :=
  openMatrix_checked asc ⟨0, 2, 0⟩ ⟨0, 2, 0⟩

theorem naturalBends_checked :
    naturalBends (p.map Point.checked) = (naturalBends p).map number :=
  openBends_checked asc _ _

theorem fullMatrix_checked :
    fullMatrix (p.map Point.checked) = (fullMatrix p).checked :=
  openMatrix_checked asc ⟨0, 2, 1⟩ ⟨1, 2, 0⟩

theorem fullBends_checked (m₀ m₁ : ℝ) :
    fullBends (p.map Point.checked) (number m₀) (number m₁)
      = (fullBends p m₀ m₁).map number := by
  rw [fullBends, fullBends, widths_checked, secants_checked asc,
    ← openBends_checked asc]
  simp only [Vector.get_map]
  rw [endBend_checked (asc.widths_pos _), endBend_checked (asc.widths_pos _)]

end Open

section Circle

variable {p : Vector (Point ℝ) (m + 3)} (asc : Ascending p)

include asc

theorem periodicMatrix_checked :
    periodicMatrix (p.map Point.checked) = (periodicMatrix p).checked := by
  rw [periodicMatrix, periodicMatrix, widths_checked, ← ofCyclicRows_checked]
  refine congrArg ofCyclicRows (funext fun k => ?_)
  rw [Vector.get_map, Vector.get_map]
  exact innerRow_checked (asc.widths_pos _) (asc.widths_pos _)

theorem periodicBends_checked :
    periodicBends (p.map Point.checked) = (periodicBends p).map number := by
  rw [periodicBends, periodicBends, widths_checked, secants_checked asc,
    Vector.map_ofFn]
  refine congrArg Vector.ofFn (funext fun k => ?_)
  simp only [Vector.get_map]
  exact bend_checked (asc.widths_pos _) (asc.widths_pos _) _ _

end Circle

/-! ## Slopes -/

theorem closed_checked (u : Vector ℝ (m + 2)) :
    closed (u.map number) = (closed u).map number := by
  rw [closed, closed, Vector.map_ofFn]
  refine congrArg Vector.ofFn (funext fun i => ?_)
  rw [Function.comp_apply, apply_dite number]
  simp only [Vector.get_map]

theorem baseSlope_checked (h secant before after : ℝ) :
    baseSlope (number h) (number secant) (number before) (number after)
      = number (baseSlope h secant before after) :=
  congrArg (number secant - · * number (after - before))
    (number_div h (show (6 : ℝ) ≠ 0 by norm_num))

section Slopes

variable (h s : Vector ℝ (m + 1)) (u : Vector ℝ (m + 2)) (k : Fin (m + 1))

theorem startSlope_checked :
    startSlope (h.map number) (s.map number) (u.map number) k
      = number (startSlope h s u k) := by
  simp only [startSlope, Vector.get_map, baseSlope_checked]
  exact congrArg (number _ - ·) (number_div _ two_ne_zero)

theorem endSlope_checked :
    endSlope (h.map number) (s.map number) (u.map number) k
      = number (endSlope h s u k) := by
  simp only [endSlope, Vector.get_map, baseSlope_checked]
  exact congrArg (number _ + ·) (number_div _ two_ne_zero)

end Slopes

theorem slopes_checked {p : Vector (Point ℝ) (m + 2)} (asc : Ascending p)
    (u : Vector ℝ (m + 2)) :
    slopes (p.map Point.checked) (u.map number)
      = (slopes p u).map number := by
  rw [slopes, slopes, widths_checked, secants_checked asc, Vector.map_ofFn]
  refine congrArg Vector.ofFn (funext fun i => ?_)
  rw [Function.comp_apply, apply_dite number]
  simp only [startSlope_checked, endSlope_checked]

end Moments

/-! ## Fitting -/

/-- The boundary with checked slopes. -/
def Boundary.checked : Boundary ℝ → Boundary Checked
  | .full first last => .full (.number first) (.number last)
  | .natural => .natural
  | .periodic => .periodic
  | .monotonic => .monotonic

/-- The knot with checked coordinates and slope. -/
def Knot.checked (k : Knot ℝ) : Knot Checked :=
  ⟨.number k.x, .number k.y, .number k.slope⟩

namespace Curve

variable {m : ℕ}

/-- The curve through checked knots. -/
def checked (c : Curve ℝ) : Curve Checked :=
  ⟨c.family, c.inner, c.knots.map Knot.checked⟩

/-- No number is undefined, so numbers are told apart by their order alone. -/
theorem notBehind_number (x y : ℝ) :
    Scalar.notBehind (number x) (number y) = Scalar.notBehind x y := by
  have hundefined (z : ℝ) :
      Scalar.isUndefined (number z) = Scalar.isUndefined z :=
    congrArg (!·) (number_beq z z)
  have hbehind : decide (number y < number x) = decide (y < x) :=
    decide_eq_decide.mpr Iff.rfl
  rw [Scalar.notBehind, hundefined, hundefined, hbehind]
  rfl

/-- Checked points are arranged by their positions as numbers. -/
theorem arrange_checked (sort : Bool) (points : List (Point ℝ)) :
    arrange sort (points.map Point.checked)
      = (arrange sort points).map Point.checked :=
  arrange_map Point.checked (fun p q => notBehind_number p.x q.x)
    (fun _ _ => Iff.rfl) sort points

theorem ofSlopes_checked (family : Family) (p : Vector (Point ℝ) (m + 2))
    (s : Vector ℝ (m + 2)) :
    ofSlopes family (p.map Point.checked) (s.map number)
      = (ofSlopes family p s).checked :=
  ofSlopes_map (fun _ _ => rfl) family p s

/-- A fit of checked points is one through the checked points of a fit. -/
theorem fit_checked {b : Boundary ℝ} {sort : Bool} {points : List (Point ℝ)}
    {p : Vector (Point ℝ) (m + 2)} (hp : p.toList = arrange sort points)
    {s : Vector ℝ (m + 2)}
    (hs : slopes b.checked (p.map Point.checked) = .ok (s.map number)) :
    (fit b.checked sort (points.map Point.checked)).result
      = .ok (ofSlopes b.family p s).checked := by
  have hp' : (p.map Point.checked).toList
      = arrange sort (points.map Point.checked) := by
    rw [Vector.toList_map, hp, arrange_checked]
  have hfamily : b.checked.family = b.family := by
    cases b <;> rfl
  rw [fit_eq_through hp', result_through hs, hfamily, ofSlopes_checked]

end Curve

end PiecewiseCubic
