import PiecewiseCubic.Proofs.Ends
import PiecewiseCubic.Proofs.Reordering

/-! # Two ends as two points

    Two ends with slopes are also two points of a full curve.  As ends they
    make the curve at once.  As points they are put into order, the moments at
    both of them are solved for, and the slopes are computed from the moments.
    One segment has no inner knot where curvatures could differ, so the slopes
    that come back are the given ones.  Neither way moves the slopes along with
    the points, so both make one curve of ends in either order. -/

namespace PiecewiseCubic

namespace Curve

/-- **THE SLOPES AT TWO POINTS** are the given ones. -/
theorem slopes_two {p : Vector (Point ℝ) 2} (asc : Moments.Ascending p)
    (m₀ m₁ : ℝ) : slopes (.full m₀ m₁) p = .ok #v[m₀, m₁] := by
  refine (slopes_full_iff .full asc).mpr ⟨?_, rfl, rfl⟩
  -- curvatures are compared where one segment ends and a next one begins
  intro i j hij
  have hi : i.val < 1 := i.isLt
  have hj : j.val < 1 := j.isLt
  omega

/-- Points in ascending order are found again from each order that is undone,
    by sorting or without. -/
theorem arrange_eq_of_ascends {points given : List (Point ℝ)}
    (asc : Ascends points) {sort : Bool} (perm : given.Perm points)
    (order : sort = true ∨ Ascends given ∨ Ascends given.reverse) :
    arrange sort given = points := by
  have distinct : Distinct points := by
    refine ⟨fun p _ => Exact.defined p.x, asc.imp ?_⟩
    intro p q hlt
    exact beq_eq_false_iff_ne.mpr (ne_of_lt hlt)
  rw [distinct.arrange_eq perm order,
    ← distinct.arrange_eq (.refl points) (Or.inr (Or.inl asc))]
  exact arrange_of_ascending asc

/-- A full curve is fitted to two points by taking them for its ends. -/
theorem fit_of_arrange_two {sort : Bool} {points : List (Point ℝ)}
    {p q : Point ℝ} (harrange : arrange sort points = [p, q]) (h : p.x < q.x)
    (m₀ m₁ : ℝ) :
    fit (.full m₀ m₁) sort points
      = ⟨[.constructed .full 2],
        .ok (spanned ⟨p.x, p.y, m₀⟩ ⟨q.x, q.y, m₁⟩)⟩ := by
  have hp : (#v[p, q] : Vector (Point ℝ) 2).toList = arrange sort points :=
    harrange.symm
  have asc : Moments.Ascending (#v[p, q] : Vector (Point ℝ) 2) := by
    have hascends : Ascends (#v[p, q] : Vector (Point ℝ) 2).toList := by
      rw [hp, harrange, Ascends]
      simpa using h
    exact fun i j hij => rel_get_of_pairwise hascends hij
  rw [fit_eq_through hp, through, slopes_two asc]
  rfl

/-- **TWO ENDS ARE TWO POINTS**: a full curve that is fitted to two points with
    different positions is the one with these ends, with sorting or without,
    and nothing but its making is noticed. -/
theorem fit_two_eq_ofEnds {x₀ x₁ : ℝ} (h : x₀ ≠ x₁) (y₀ y₁ m₀ m₁ : ℝ)
    (sort : Bool) :
    fit (.full m₀ m₁) sort [⟨x₀, y₀⟩, ⟨x₁, y₁⟩]
      = ⟨[.constructed .full 2], .ok (ofEnds x₀ x₁ y₀ y₁ m₀ m₁)⟩ := by
  rcases h.lt_or_gt with hlt | hgt
  · have asc : Ascends [(⟨x₀, y₀⟩ : Point ℝ), ⟨x₁, y₁⟩] := by
      rw [Ascends]
      simpa using hlt
    rw [ofEnds_of_lt hlt]
    exact fit_of_arrange_two
      (arrange_eq_of_ascends asc (.refl _) (Or.inr (Or.inl asc))) hlt m₀ m₁
  · have asc : Ascends [(⟨x₁, y₁⟩ : Point ℝ), ⟨x₀, y₀⟩] := by
      rw [Ascends]
      simpa using hgt
    rw [ofEnds_of_gt hgt]
    exact fit_of_arrange_two
      (arrange_eq_of_ascends asc (.swap _ _ _) (Or.inr (Or.inr asc))) hgt m₀ m₁

theorem toList_points_spanned (k l : Knot ℝ) :
    (spanned k l).points.toList = [⟨k.x, k.y⟩, ⟨l.x, l.y⟩] := by
  rw [points, Vector.toList_map]
  rfl

/-- **A CURVE WITH TWO ENDS** goes through them from left to right, and has the
    first slope at the left one. -/
theorem ofEnds_through {x₀ x₁ : ℝ} (h : x₀ ≠ x₁) (y₀ y₁ m₀ m₁ : ℝ) :
    (ofEnds x₀ x₁ y₀ y₁ m₀ m₁).Sorted
      ∧ (ofEnds x₀ x₁ y₀ y₁ m₀ m₁).points.toList.Perm [⟨x₀, y₀⟩, ⟨x₁, y₁⟩]
      ∧ (ofEnds x₀ x₁ y₀ y₁ m₀ m₁).firstKnot.slope = m₀
      ∧ (ofEnds x₀ x₁ y₀ y₁ m₀ m₁).lastKnot.slope = m₁ := by
  rcases h.lt_or_gt with hlt | hgt
  · rw [ofEnds_of_lt hlt]
    refine ⟨ascending_spanned hlt, ?_, rfl, rfl⟩
    rw [toList_points_spanned]
  · rw [ofEnds_of_gt hgt]
    refine ⟨ascending_spanned hgt, ?_, rfl, rfl⟩
    rw [toList_points_spanned]
    exact .swap _ _ _

end Curve

namespace Session

variable {x₀ x₁ : ℝ}

/-- A caller who gives two points and both slopes gets the curve with these
    ends.  A curve with slopes is full unless its family is named. -/
theorem fit_two_points (h : x₀ ≠ x₁) (y₀ y₁ m₀ m₁ : ℝ) (sort : Literal) :
    fit ⟨.null, .number m₀, .number m₁, sort⟩ [⟨x₀, y₀⟩, ⟨x₁, y₁⟩]
      = .ok ⟨some (Curve.ofEnds x₀ x₁ y₀ y₁ m₀ m₁),
        [.constructed .full 2]⟩ := by
  have hasked : asked ⟨.null, .number m₀, .number m₁, sort⟩
      = .ok (.full (.number m₀) (.number m₁)) := rfl
  have hboundary : boundary (.full (.number m₀) (.number m₁))
      = .ok (.full m₀ m₁) := rfl
  rw [fit, hasked]
  simp only [bind, Except.bind, List.length_cons, List.length_nil, hboundary,
    Curve.fit_two_eq_ofEnds h]
  rfl

/-- **TWO ENDS OR TWO POINTS**: six numbers with two different positions, in
    either order, make the same curve as the two points that they stand for,
    given as rows with both slopes, whatever the sessions held and whether the
    points are to be sorted or not.  It is full, its knots ascend and are at
    the two points, and its slopes are the given ones, the first of them at
    the left end. -/
theorem ends_as_points (h : x₀ ≠ x₁) (y₀ y₁ m₀ m₁ : ℝ) :
    ∃ c : Curve ℝ,
      (∀ held : Option (Curve ℝ),
        step held (.setEnds (Cell.ofNumbers [x₀, x₁, y₀, y₁, m₀, m₁]))
          = (some c, .ok (.made (some c) [])))
      ∧ (∀ (held : Option (Curve ℝ)) (sort : Literal),
        step held (.setArrays (.ofNumbers [x₀, x₁]) (.ofNumbers [y₀, y₁])
            ⟨.null, .number m₀, .number m₁, sort⟩)
          = (some c, .ok (.made (some c) [.constructed .full 2])))
      ∧ c.family = .full ∧ c.Sorted
      ∧ c.points.toList.Perm [⟨x₀, y₀⟩, ⟨x₁, y₁⟩]
      ∧ c.firstKnot.slope = m₀ ∧ c.lastKnot.slope = m₁ := by
  refine ⟨Curve.ofEnds x₀ x₁ y₀ y₁ m₀ m₁, ?_, ?_, rfl,
    Curve.ofEnds_through h y₀ y₁ m₀ m₁⟩
  · intro held
    exact step_setEnds_numbers held x₀ x₁ y₀ y₁ m₀ m₁
  · intro held sort
    have hfit := fit_two_points h y₀ y₁ m₀ m₁ sort
    rw [← fitArrays_ofNumbers] at hfit
    have hmake : make? (.setArrays (.ofNumbers [x₀, x₁]) (.ofNumbers [y₀, y₁])
        ⟨.null, .number m₀, .number m₁, sort⟩)
          = some (.ok ⟨some (Curve.ofEnds x₀ x₁ y₀ y₁ m₀ m₁),
            [.constructed .full 2]⟩) := congrArg some hfit
    rw [step, hmake]

/-- One is behind zero, so both ways exchange the values, and neither one the
    slopes: two is the slope at zero and five the one at one. -/
theorem ends_as_points_behind :
    ∃ c : Curve ℝ,
      (1 : ℝ) ≠ 0
        ∧ step none (.setEnds (Cell.ofNumbers [1, 0, 3, 4, 2, 5]))
          = (some c, .ok (.made (some c) []))
        ∧ step none (.setArrays (.ofNumbers [1, 0]) (.ofNumbers [3, 4])
            ⟨.null, .number 2, .number 5, .null⟩)
          = (some c, .ok (.made (some c) [.constructed .full 2]))
        ∧ c.Sorted ∧ c.points.toList.Perm [⟨1, 3⟩, ⟨0, 4⟩]
        ∧ c.firstKnot.slope = 2 ∧ c.lastKnot.slope = 5 := by
  obtain ⟨c, hends, hpoints, -, hknots⟩ := ends_as_points one_ne_zero 3 4 2 5
  exact ⟨c, one_ne_zero, hends none, hpoints none .null, hknots⟩

end Session

end PiecewiseCubic
