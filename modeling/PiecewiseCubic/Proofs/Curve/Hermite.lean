import PiecewiseCubic.Proofs.Exact
import PiecewiseCubic.Curve.Segment

/-! # One segment over the reals

    A segment is read at the fraction of the way from its left knot to its
    right one.  Its value and its slope are sums of the secant and the two
    slopes with the weights of Bernstein, and at both ends it has the values
    and slopes of its knots. -/

namespace PiecewiseCubic.Segment

variable (s : Segment ℝ)

/-- The fraction of the way from the left knot to the right one. -/
noncomputable def fraction (x : ℝ) : ℝ := (x - s.left.x) / s.width

/-- The value of the right knot is that of the left one and a rise. -/
theorem right_y_eq (hw : s.width ≠ 0) :
    s.right.y = s.left.y + s.secant * s.width := by
  have h : s.secant * s.width = s.right.y - s.left.y := div_mul_cancel₀ _ hw
  rw [h, add_sub_cancel]

@[simp]
theorem fraction_left : s.fraction s.left.x = 0 := by
  rw [fraction, sub_self, zero_div]

@[simp]
theorem fraction_right (hw : s.width ≠ 0) : s.fraction s.right.x = 1 :=
  div_self hw

theorem fraction_mem (hw : 0 < s.width) {x : ℝ} (h₀ : s.left.x ≤ x)
    (h₁ : x ≤ s.right.x) : 0 ≤ s.fraction x ∧ s.fraction x ≤ 1 := by
  refine ⟨div_nonneg (sub_nonneg.mpr h₀) hw.le, (div_le_one hw).mpr ?_⟩
  exact sub_le_sub_right h₁ _

/-- Each fraction of the way is that of a position. -/
theorem exists_fraction_eq (hw : 0 < s.width) {t : ℝ} (h₀ : 0 ≤ t)
    (h₁ : t ≤ 1) :
    ∃ x, s.left.x ≤ x ∧ x ≤ s.right.x ∧ s.fraction x = t := by
  refine ⟨s.left.x + t * s.width, ?_, ?_, ?_⟩
  · exact le_add_of_nonneg_right (mul_nonneg h₀ hw.le)
  · have hle : t * s.width ≤ s.width := mul_le_of_le_one_left hw.le h₁
    have hright : s.right.x = s.left.x + s.width := (add_sub_cancel _ _).symm
    rw [hright]
    exact add_le_add_right hle _
  · rw [fraction, add_sub_cancel_left, mul_div_cancel_right₀ _ hw.ne']

/-- **THE VALUE** of a segment above that of its left knot. -/
theorem eval_value_sub_left (hw : s.width ≠ 0) (x : ℝ) :
    s.eval .value x - s.left.y
      = s.width * (s.secant * (s.fraction x ^ 2 * (3 - 2 * s.fraction x))
        + s.left.slope * (s.fraction x * (1 - s.fraction x) ^ 2)
        - s.right.slope * (s.fraction x ^ 2 * (1 - s.fraction x))) := by
  have hy := s.right_y_eq hw
  show ((2 * s.fraction x - 3) * s.fraction x * s.fraction x + 1) * s.left.y
      + (((s.fraction x - 2) * s.fraction x + 1) * s.fraction x)
        * s.left.slope * s.width
      + ((-2 * s.fraction x + 3) * s.fraction x * s.fraction x) * s.right.y
      + ((s.fraction x - 1) * s.fraction x * s.fraction x)
        * s.right.slope * s.width - s.left.y = _
  rw [hy]
  ring

/-- **THE SLOPE** of a segment. -/
theorem eval_first (hw : s.width ≠ 0) (x : ℝ) :
    s.eval .first x
      = s.left.slope * (1 - s.fraction x) ^ 2
        + (6 * s.secant - 2 * s.left.slope - 2 * s.right.slope)
          * (s.fraction x * (1 - s.fraction x))
        + s.right.slope * s.fraction x ^ 2 := by
  have hy := s.right_y_eq hw
  show (((6 * s.fraction x - 6) * s.fraction x) * s.left.y
      + ((3 * s.fraction x - 4) * s.fraction x + 1) * s.left.slope * s.width
      + ((-6 * s.fraction x + 6) * s.fraction x) * s.right.y
      + ((3 * s.fraction x - 2) * s.fraction x) * s.right.slope * s.width)
    / s.width ^ 1 = _
  rw [hy, pow_one, div_eq_iff hw]
  ring

/-- **THE CURVATURE** of a segment. -/
theorem eval_second (hw : s.width ≠ 0) (x : ℝ) :
    s.eval .second x
      = ((6 * s.secant - 4 * s.left.slope - 2 * s.right.slope)
          * (1 - s.fraction x)
        + (2 * s.left.slope + 4 * s.right.slope - 6 * s.secant)
          * s.fraction x) / s.width := by
  have hy := s.right_y_eq hw
  show ((12 * s.fraction x - 6) * s.left.y
      + (6 * s.fraction x - 4) * s.left.slope * s.width
      + (-12 * s.fraction x + 6) * s.right.y
      + (6 * s.fraction x - 2) * s.right.slope * s.width)
    / s.width ^ 2 = _
  rw [hy, div_eq_div_iff (pow_ne_zero 2 hw) hw]
  ring

/-! ## The cubic around the left knot -/

theorem eval_value_eq_localCubic (hw : s.width ≠ 0) (x : ℝ) :
    s.eval .value x = s.localCubic.eval (x - s.left.x) := by
  have hx : x - s.left.x = s.fraction x * s.width :=
    (div_mul_cancel₀ _ hw).symm
  have hvalue := s.eval_value_sub_left hw x
  rw [sub_eq_iff_eq_add] at hvalue
  rw [hvalue, hx]
  show _ = (((s.left.slope + s.right.slope - 2 * s.secant) / s.width ^ 2
      * (s.fraction x * s.width)
      + (3 * s.secant - 2 * s.left.slope - s.right.slope) / s.width)
      * (s.fraction x * s.width) + s.left.slope)
      * (s.fraction x * s.width) + s.left.y
  field_simp
  ring

theorem eval_first_eq_localCubic (hw : s.width ≠ 0) (x : ℝ) :
    s.eval .first x
      = (3 * s.localCubic.a * (x - s.left.x) + 2 * s.localCubic.b)
        * (x - s.left.x) + s.localCubic.c := by
  have hx : x - s.left.x = s.fraction x * s.width :=
    (div_mul_cancel₀ _ hw).symm
  rw [s.eval_first hw x, hx]
  show _ = (3 * ((s.left.slope + s.right.slope - 2 * s.secant) / s.width ^ 2)
      * (s.fraction x * s.width)
      + 2 * ((3 * s.secant - 2 * s.left.slope - s.right.slope) / s.width))
      * (s.fraction x * s.width) + s.left.slope
  field_simp
  ring

theorem eval_second_eq_localCubic (hw : s.width ≠ 0) (x : ℝ) :
    s.eval .second x
      = 6 * s.localCubic.a * (x - s.left.x) + 2 * s.localCubic.b := by
  have hx : x - s.left.x = s.fraction x * s.width :=
    (div_mul_cancel₀ _ hw).symm
  rw [s.eval_second hw x, hx]
  show _ = 6 * ((s.left.slope + s.right.slope - 2 * s.secant) / s.width ^ 2)
      * (s.fraction x * s.width)
      + 2 * ((3 * s.secant - 2 * s.left.slope - s.right.slope) / s.width)
  field_simp
  ring

theorem eval_third_eq_localCubic (hw : s.width ≠ 0) (x : ℝ) :
    s.eval .third x = 6 * s.localCubic.a := by
  have hy := s.right_y_eq hw
  show ((0 * s.fraction x + 12) * s.left.y
      + (0 * s.fraction x + 6) * s.left.slope * s.width
      + (0 * s.fraction x - 12) * s.right.y
      + (0 * s.fraction x + 6) * s.right.slope * s.width) / s.width ^ 3
    = 6 * ((s.left.slope + s.right.slope - 2 * s.secant) / s.width ^ 2)
  rw [hy]
  field_simp
  ring

/-! ## At the two knots -/

theorem eval_value_left (hw : s.width ≠ 0) :
    s.eval .value s.left.x = s.left.y := by
  have h := s.eval_value_sub_left hw s.left.x
  rw [fraction_left] at h
  linear_combination h

theorem eval_value_right (hw : s.width ≠ 0) :
    s.eval .value s.right.x = s.right.y := by
  have h := s.eval_value_sub_left hw s.right.x
  rw [s.fraction_right hw] at h
  rw [s.right_y_eq hw]
  linear_combination h

theorem eval_first_left (hw : s.width ≠ 0) :
    s.eval .first s.left.x = s.left.slope := by
  rw [s.eval_first hw, fraction_left]
  ring

theorem eval_first_right (hw : s.width ≠ 0) :
    s.eval .first s.right.x = s.right.slope := by
  rw [s.eval_first hw, s.fraction_right hw]
  ring

theorem eval_second_left (hw : s.width ≠ 0) :
    s.eval .second s.left.x
      = (6 * s.secant - 4 * s.left.slope - 2 * s.right.slope) / s.width := by
  rw [s.eval_second hw, fraction_left]
  ring

theorem eval_second_right (hw : s.width ≠ 0) :
    s.eval .second s.right.x
      = (2 * s.left.slope + 4 * s.right.slope - 6 * s.secant) / s.width := by
  rw [s.eval_second hw, s.fraction_right hw]
  ring

/-- **THE CURVATURES** at both knots fix the slopes there. -/
theorem curvatures_iff (hw : s.width ≠ 0) {u v : ℝ} :
    s.eval .second s.left.x = u ∧ s.eval .second s.right.x = v
      ↔ s.left.slope = s.secant - s.width / 6 * (2 * u + v)
        ∧ s.right.slope = s.secant + s.width / 6 * (u + 2 * v) := by
  rw [s.eval_second_left hw, s.eval_second_right hw, div_eq_iff hw,
    div_eq_iff hw]
  constructor
  · rintro ⟨hu, hv⟩
    constructor
    · linear_combination -hu / 3 - hv / 6
    · linear_combination hu / 6 + hv / 3
  · rintro ⟨hleft, hright⟩
    constructor
    · linear_combination -4 * hleft - 2 * hright
    · linear_combination 2 * hleft + 4 * hright

end PiecewiseCubic.Segment
