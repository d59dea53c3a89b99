import PiecewiseCubic.Proofs.Curve.Checked
import PiecewiseCubic.Proofs.Tridiagonal.Completeness

/-! # Smooth fits never fail

    The systems of the smooth families are dominated by their diagonals, and
    a dominated system is solved without a quotient by zero, also where its
    corners make a change of rank one.  So a fit of checked points answers a
    curve, and each number of it is defined. -/

namespace PiecewiseCubic

open Checked

namespace Tridiagonal

variable {n : ℕ}

/-- **A DOMINATED SYSTEM** is answered with numbers. -/
theorem RowDominant.answersNumbers {M : Tridiagonal ℝ (n + 1)}
    (h : RowDominant M.matrix) (d : Vector ℝ (n + 1)) :
    M.AnswersNumbers d := by
  by_cases hcornered : M.Cornered
  · refine (solve_complete_of_cornered hcornered d).1.mpr
      ⟨h.det_ne_zero, neg_ne_zero.mpr (h.diag_ne_zero 0), ?_⟩
    obtain ⟨n, rfl⟩ := hcornered.exists_eq_add_two
    exact (rowDominant_withoutCorners hcornered.1 h).det_ne_zero
  · exact (solve_complete_of_not_cornered hcornered d).1.mpr h.det_ne_zero

/-- A change of rank one divides by no zero: neither the shift nor the last
    number that it divides by is one. -/
def ChangeDefined (A : Tridiagonal ℝ (n + 1)) : Prop :=
  A.shift ≠ 0 ∧ ∃ z,
    (A.withoutCorners A.shift).solveBands (A.cornerColumn A.shift) = some z
      ∧ 1 + A.cornerProduct A.shift z ≠ 0

/-- A system of checked scalars is that of reals, it is dominated by its
    diagonal, and it is solved without a quotient by zero, the change of rank
    one that its corners ask for included. -/
structure Defined (M : Tridiagonal Checked (n + 1))
    (d : Vector Checked (n + 1)) (A : Tridiagonal ℝ (n + 1))
    (e : Vector ℝ (n + 1)) : Prop where
  matrix : M = A.checked
  rhs : d = e.map number
  dominant : RowDominant A.matrix
  solved : ∃ x : Vector ℝ (n + 1), M.solve d = some (x.map number)
  corners : A.Cornered → A.ChangeDefined

theorem RowDominant.defined {M : Tridiagonal Checked (n + 1)}
    {d : Vector Checked (n + 1)} {A : Tridiagonal ℝ (n + 1)}
    {e : Vector ℝ (n + 1)} (h : RowDominant A.matrix) (hM : M = A.checked)
    (hd : d = e.map number) : Defined M d A e where
  matrix := hM
  rhs := hd
  dominant := h
  solved := by
    rw [hM, hd]
    exact h.answersNumbers e
  corners := by
    intro hcornered
    obtain ⟨n, rfl⟩ := hcornered.exists_eq_add_two
    obtain ⟨hshift, -, z, -, hz, hone⟩ :=
      exists_parts_of_rowDominant hcornered.1 h e
    exact ⟨hshift, z, hz, hone⟩

end Tridiagonal

namespace Curve

open Tridiagonal Moments

variable {m n : ℕ}

/-- The moments of a dominated system are the same between checked
    scalars. -/
theorem moments_checked {A : Tridiagonal ℝ (n + 1)} {e u : Vector ℝ (n + 1)}
    (h : RowDominant A.matrix) (hu : moments A e = .ok u) :
    moments A.checked (e.map number) = .ok (u.map number) := by
  obtain ⟨x, hx⟩ := h.answersNumbers e
  -- the numbers that are answered are those over the reals
  rw [moments, (matrix_mulVec_of_solve hx).1] at hu
  obtain rfl := Except.ok.inj hu
  rw [moments, hx]

/-- The fit of checked points answers the curve that is fitted over the
    reals: all its numbers are defined. -/
def FitsNumbers (b : Boundary ℝ) (sort : Bool) (points : List (Point ℝ)) :
    Prop :=
  ∃ c : Curve ℝ, (fit b sort points).result = .ok c
    ∧ (fit b.checked sort (points.map Point.checked)).result = .ok c.checked

section Families

variable {sort : Bool} {points : List (Point ℝ)}

/-- A family whose slopes follow from the moments of a dominated system fits
    numbers, if what follows from numbers are numbers. -/
theorem fitsNumbers_of_rowDominant {b : Boundary ℝ}
    {p : Vector (Point ℝ) (m + 2)} {A : Tridiagonal ℝ (n + 1)}
    {e : Vector ℝ (n + 1)} {f : Vector ℝ (n + 1) → Vector ℝ (m + 2)}
    {g : Vector Checked (n + 1) → Vector Checked (m + 2)}
    (dom : RowDominant A.matrix) (hp : p.toList = arrange sort points)
    (hs : slopes b p = (moments A e).map f)
    (hs' : slopes b.checked (p.map Point.checked)
      = (moments A.checked (e.map number)).map g)
    (hnumbers : ∀ u, g (u.map number) = (f u).map number) :
    FitsNumbers b sort points := by
  obtain ⟨u, hu, -⟩ := exists_moments dom e
  rw [hu] at hs
  rw [moments_checked dom hu] at hs'
  exact ⟨_, (fit_of_slopes (fit_eq_through hp) hp hs).1,
    fit_checked hp (hs'.trans (congrArg Except.ok (hnumbers u)))⟩

theorem fitsNumbers_natural {p : Vector (Point ℝ) (m + 2)}
    (asc : Moments.Ascending p) (hp : p.toList = arrange sort points) :
    FitsNumbers .natural sort points := by
  refine fitsNumbers_of_rowDominant (rowDominant_natural asc) hp rfl ?_
    (slopes_checked asc)
  rw [Boundary.checked, slopes, naturalMatrix_checked asc,
    naturalBends_checked asc]

theorem fitsNumbers_full {p : Vector (Point ℝ) (m + 2)}
    (asc : Moments.Ascending p) (hp : p.toList = arrange sort points)
    (m₀ m₁ : ℝ) : FitsNumbers (.full m₀ m₁) sort points := by
  refine fitsNumbers_of_rowDominant (rowDominant_full asc) hp rfl ?_
    (slopes_checked asc)
  rw [Boundary.checked, slopes, fullMatrix_checked asc,
    fullBends_checked asc]

theorem fitsNumbers_periodic {p : Vector (Point ℝ) (m + 3)}
    (asc : Moments.Ascending p) (hp : p.toList = arrange sort points) :
    FitsNumbers .periodic sort points := by
  have hclosed : ∀ u : Vector ℝ (m + 2),
      Moments.slopes (p.map Point.checked) (closed (u.map number))
        = (Moments.slopes p (closed u)).map number := by
    intro u
    rw [closed_checked, slopes_checked asc]
  have hrun : slopes Boundary.periodic.checked (p.map Point.checked)
      = (moments (periodicMatrix p).checked
          ((periodicBends p).map number)).map fun u =>
        Moments.slopes (p.map Point.checked) (closed u) := by
    rw [Boundary.checked, slopes, periodicMatrix_checked asc,
      periodicBends_checked asc]
  exact fitsNumbers_of_rowDominant (rowDominant_periodic asc) hp rfl hrun
    hclosed

/-- **SMOOTH FITS NEVER FAIL**: through two points or more in order, of
    periodic curves three or more, the system of each smooth family is
    dominated by its diagonal, and neither it nor its solution nor the slopes
    that follow need a quotient by zero, those of the change of rank one
    included. -/
theorem fit_smooth_defined (sort : Bool) (points : List (Point ℝ))
    (two : 2 ≤ points.length) (order : InOrder sort points) :
    ∃ (m : ℕ) (p : Vector (Point ℝ) (m + 2)), p.toList = arrange sort points
      ∧ (Defined (naturalMatrix (p.map Point.checked))
            (naturalBends (p.map Point.checked))
            (naturalMatrix p) (naturalBends p)
          ∧ FitsNumbers .natural sort points)
      ∧ (∀ m₀ m₁ : ℝ,
        Defined (fullMatrix (p.map Point.checked))
            (fullBends (p.map Point.checked) (number m₀) (number m₁))
            (fullMatrix p) (fullBends p m₀ m₁)
          ∧ FitsNumbers (.full m₀ m₁) sort points)
      ∧ (3 ≤ points.length → ∃ (n : ℕ) (q : Vector (Point ℝ) (n + 3)),
        q.toList = arrange sort points
          ∧ Defined (periodicMatrix (q.map Point.checked))
            (periodicBends (q.map Point.checked))
            (periodicMatrix q) (periodicBends q)
          ∧ FitsNumbers .periodic sort points) := by
  obtain ⟨m, p, hlength, hp, asc, -⟩ := order.exists_through two
  refine ⟨m, p, hp, ⟨?_, fitsNumbers_natural asc hp⟩,
    fun m₀ m₁ => ⟨?_, fitsNumbers_full asc hp m₀ m₁⟩, fun three => ?_⟩
  · exact (rowDominant_natural asc).defined (naturalMatrix_checked asc)
      (naturalBends_checked asc)
  · exact (rowDominant_full asc).defined (fullMatrix_checked asc)
      (fullBends_checked asc m₀ m₁)
  · obtain ⟨m, rfl⟩ : ∃ k, m = k + 1 := ⟨m - 1, by omega⟩
    exact ⟨m, p, hp, (rowDominant_periodic asc).defined
      (periodicMatrix_checked asc) (periodicBends_checked asc),
      fitsNumbers_periodic asc hp⟩

/-- From four points on the system of the periodic curve has corners. -/
theorem cornered_periodic {p : Vector (Point ℝ) (m + 4)}
    (asc : Moments.Ascending p) : (periodicMatrix p).Cornered := by
  refine ⟨rfl, by omega, eq_true_of_ne_false fun h => ?_⟩
  have hfirst := asc.widths_pos firstPlace
  have hnext := asc.widths_pos (nextSegment firstPlace)
  have htop : (periodicMatrix p).topRight
      = (innerRow ((widths p).get firstPlace)
        ((widths p).get (nextSegment firstPlace))).left := rfl
  rw [hasCorner_eq_false_iff, htop, innerRow_left hfirst hnext] at h
  exact (div_pos hfirst (add_pos hfirst hnext)).ne' h.1

/-- Four uneven points with different end values, the fewest whose circle has
    corners. -/
theorem fit_smooth_defined_fourPoints :
    2 ≤ [(⟨0, 0⟩ : Point ℝ), ⟨1, 1⟩, ⟨3, 5⟩, ⟨4, 2⟩].length
      ∧ InOrder false [⟨0, 0⟩, ⟨1, 1⟩, ⟨3, 5⟩, ⟨4, 2⟩]
      ∧ FitsNumbers .periodic false [⟨0, 0⟩, ⟨1, 1⟩, ⟨3, 5⟩, ⟨4, 2⟩]
      ∧ ∃ q : Vector (Point ℝ) 4,
        q.toList = [⟨0, 0⟩, ⟨1, 1⟩, ⟨3, 5⟩, ⟨4, 2⟩]
          ∧ (periodicMatrix q).Cornered ∧ (periodicMatrix q).ChangeDefined
          ∧ RowDominant (periodicMatrix q).matrix := by
  have asc : [(⟨0, 0⟩ : Point ℝ), ⟨1, 1⟩, ⟨3, 5⟩, ⟨4, 2⟩].Pairwise
      fun p q => p.x < q.x := by norm_num
  have harrange := arrange_of_ascending asc
  have order : InOrder false [⟨0, 0⟩, ⟨1, 1⟩, ⟨3, 5⟩, ⟨4, 2⟩] := by
    rw [InOrder, harrange]
    exact asc
  have two : 2 ≤ [(⟨0, 0⟩ : Point ℝ), ⟨1, 1⟩, ⟨3, 5⟩, ⟨4, 2⟩].length := by
    decide
  obtain ⟨-, -, -, -, -, hperiodic⟩ := fit_smooth_defined false _ two order
  obtain ⟨n, q, hq, hdefined, hfits⟩ := hperiodic (by decide)
  rw [harrange] at hq
  obtain rfl : n = 1 := by simpa using congrArg List.length hq
  have hascending : Moments.Ascending q := fun i j hij =>
    rel_get_of_pairwise (hq ▸ asc) hij
  have hcornered := cornered_periodic hascending
  exact ⟨two, order, hfits, q, hq, hcornered,
    hdefined.corners hcornered, hdefined.dominant⟩

end Families

end Curve

end PiecewiseCubic
