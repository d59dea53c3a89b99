import PiecewiseCubic.Proofs.Curve.Derivative
import PiecewiseCubic.Session

/-! # The coefficients of a segment

    A curve is evaluated in the basis of Hermite, but who asks for a segment
    gets coefficients in powers of the position.  Between the two stands the
    cubic around the left knot, in which trends and crossings are sought:
    moving it to the origin gives the coefficients.  Each order of a segment is
    the derivative of the one before it, so all of them are derivatives of the
    polynomial with these coefficients, and none has to be compared with its
    coefficients again. -/

namespace PiecewiseCubic

namespace Segment

variable (s : Segment ℝ) (hw : s.width ≠ 0)

include hw

/-- **MOVED TO THE ORIGIN** the cubic around the left knot has the coefficients
    in powers of the position. -/
theorem eval_value_eq_toCubic : s.eval .value = s.toCubic.eval := by
  funext x
  rw [s.eval_value_eq_localCubic hw]
  -- how the coefficients come from the knots does not matter here
  obtain ⟨p, hp⟩ : ∃ p, p = s.localCubic := ⟨_, rfl⟩
  obtain ⟨x₀, hx₀⟩ : ∃ x₀, x₀ = s.left.x := ⟨_, rfl⟩
  rw [toCubic, ← hp, ← hx₀]
  show ((p.a * (x - x₀) + p.b) * (x - x₀) + p.c) * (x - x₀) + p.d
    = ((p.a * x + (p.b - 3 * p.a * x₀)) * x
        + (p.c - 2 * p.b * x₀ + 3 * p.a * x₀ ^ 2)) * x
      + (p.d - p.c * x₀ + p.b * x₀ ^ 2 - p.a * x₀ ^ 3)
  ring

/-- **EACH ORDER** of a segment is so often the derivative of its value. -/
theorem iteratedDeriv_eval (order : Order) :
    iteratedDeriv order.toNat (s.eval .value) = s.eval order := by
  have hfirst : deriv (s.eval .value) = s.eval .first :=
    funext fun x => (s.hasDerivAt_eval hw x).deriv
  have hsecond : deriv (s.eval .first) = s.eval .second :=
    funext fun x => (s.hasDerivAt_eval_first hw x).deriv
  have hthird : deriv (s.eval .second) = s.eval .third :=
    funext fun x => (s.hasDerivAt_eval_second hw x).deriv
  cases order with
  | value => exact iteratedDeriv_zero
  | first =>
      show iteratedDeriv 1 _ = _
      rw [iteratedDeriv_one, hfirst]
  | second =>
      show iteratedDeriv 2 _ = _
      rw [iteratedDeriv_succ', iteratedDeriv_one, hfirst, hsecond]
  | third =>
      show iteratedDeriv 3 _ = _
      rw [iteratedDeriv_succ', iteratedDeriv_succ', iteratedDeriv_one, hfirst,
        hsecond, hthird]

/-- A segment in the basis of Hermite and in powers of the position is one
    function, and so are its derivatives. -/
theorem iteratedDeriv_toCubic (order : Order) :
    iteratedDeriv order.toNat s.toCubic.eval = s.eval order := by
  rw [← s.eval_value_eq_toCubic hw, s.iteratedDeriv_eval hw]

end Segment

namespace Curve

/-- The number of a segment is answered by its coefficients. -/
theorem coefficients_eq (c : Curve ℝ) (i : Fin (c.inner + 1)) :
    Session.coefficients (some c) (.int i) = .ok (c.segment i).toCubic := by
  have hlow : ¬ (i : ℤ) < 0 := by omega
  have hhigh : (i : ℤ).toNat < c.inner + 1 := by omega
  simp only [Session.coefficients, decide_eq_false hlow, Session.curve, bind,
    Except.bind, dif_pos hhigh]
  rfl

/-- **THE COEFFICIENTS** of each segment of a curve with ascending knots are
    those of a polynomial that has, with all its derivatives, the numbers that
    the curve answers on the segment.  The right knot counts to the next
    segment, if there is one. -/
theorem coefficients_describe (c : Curve ℝ) (asc : c.Ascending)
    (i : Fin (c.inner + 1)) :
    ∃ p : Cubic ℝ, Session.coefficients (some c) (.int i) = .ok p
      ∧ ∀ (order : Order) (extrapolate : Bool) (x : ℝ),
        (c.segment i).left.x ≤ x →
        (x < (c.segment i).right.x ∨ i = Fin.last c.inner ∧ x = c.xMax) →
        c.eval order extrapolate x
          = .ok (iteratedDeriv order.toNat p.eval x) := by
  refine ⟨_, c.coefficients_eq i, ?_⟩
  intro order extrapolate x h₀ h₁
  obtain ⟨hmin, hmax⟩ := asc.segment_mem i
  have hindex : c.segmentIndex x = i := by
    refine asc.segmentIndex_eq (Or.inr h₀) ?_
    obtain hlt | ⟨rfl, -⟩ := h₁
    · exact Or.inr hlt
    · exact Or.inl rfl
  have hle : x ≤ c.xMax := by
    obtain hlt | ⟨-, rfl⟩ := h₁
    · exact hlt.le.trans hmax
    · exact le_refl _
  rw [eval_eq_inside (hmin.trans h₀) hle, inside, hindex,
    Segment.iteratedDeriv_toCubic _ (asc.width_ne_zero i)]

/-- The last segment of three knots, up to and with the end. -/
theorem coefficients_describe_bent :
    (bent : Curve ℝ).Ascending
      ∧ ∃ p : Cubic ℝ, Session.coefficients (some bent) (.int 1) = .ok p
        ∧ (bent : Curve ℝ).eval .first false 2 = .ok (deriv p.eval 2)
        ∧ (bent : Curve ℝ).eval .value false 3 = .ok (p.eval 3) := by
  obtain ⟨p, hp, h⟩ := coefficients_describe bent ascending_bent (1 : Fin 2)
  have hleft : ((bent : Curve ℝ).segment (1 : Fin 2)).left.x = 1 := rfl
  have hright : ((bent : Curve ℝ).segment (1 : Fin 2)).right.x = 3 := rfl
  rw [hleft, hright] at h
  have hslope := h .first false 2 (by norm_num) (Or.inl (by norm_num))
  have hvalue := h .value false 3 (by norm_num) (Or.inr ⟨rfl, rfl⟩)
  exact ⟨ascending_bent, p, hp, by rwa [← iteratedDeriv_one], hvalue⟩

end Curve

end PiecewiseCubic
