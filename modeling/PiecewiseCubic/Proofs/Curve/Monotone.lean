import PiecewiseCubic.Proofs.Curve.Confinement
import PiecewiseCubic.Proofs.Curve.Verdict

/-! # Monotonic curves keep the direction of their points

    Where the points never turn, each segment ends up with a pair of slopes
    in the circle of radius three, and such a pair makes a derivative that
    runs along the secant all the way.  So the slope has the direction of the
    points everywhere, and so have the values and the monotonicity. -/

namespace PiecewiseCubic

open Limiter

variable {sigma b s l r t u : ℝ}

/-! ## Slopes in the circle -/

/-- **THE CIRCLE** of radius three keeps a derivative from turning. -/
theorem bernstein_nonneg (hs : 0 ≤ s) (hl : 0 ≤ l) (hr : 0 ≤ r)
    (circle : l ^ 2 + r ^ 2 ≤ 9 * s ^ 2) (hu : 0 ≤ u) (ht : 0 ≤ t) :
    0 ≤ l * u ^ 2 + (6 * s - 2 * l - 2 * r) * (t * u) + r * t ^ 2 := by
  rcases le_or_gt 0 (6 * s - 2 * l - 2 * r) with hmiddle | hmiddle
  · positivity
  have hleft : l ≤ 3 * s := by nlinarith [sq_nonneg r]
  have hright : r ≤ 3 * s := by nlinarith [sq_nonneg l]
  have hpos : 0 < l := by linarith
  have hdisc : (6 * s - 2 * l - 2 * r) ^ 2 ≤ 4 * l * r := by
    -- the sum of the slopes is above 3 s and below 9 s
    have hprod : 0 ≤ (l + r - 3 * s) * (9 * s - (l + r)) :=
      mul_nonneg (by linarith) (by linarith)
    nlinarith
  have hsquare : 0 ≤ 4 * l
      * (l * u ^ 2 + (6 * s - 2 * l - 2 * r) * (t * u) + r * t ^ 2) := by
    calc (0 : ℝ) ≤ (2 * l * u + (6 * s - 2 * l - 2 * r) * t) ^ 2
          + (4 * l * r - (6 * s - 2 * l - 2 * r) ^ 2) * t ^ 2 :=
          add_nonneg (sq_nonneg _)
            (mul_nonneg (sub_nonneg.mpr hdisc) (sq_nonneg t))
      _ = _ := by ring
  exact nonneg_of_mul_nonneg_right hsquare (by linarith)

namespace Limiter.Tame

/-- Where the points do not turn, the slopes are in the circle. -/
theorem circle (h : Tame b s l r) (same : 0 ≤ b * s) :
    l ^ 2 + r ^ 2 ≤ 9 * s ^ 2 :=
  h.bounded.resolve_right fun e => absurd same e.2.not_ge

/-- The derivative of a segment that goes in a direction does so too. -/
theorem derivative_along (h : Tame b s l r) (same : 0 ≤ b * s)
    (along : 0 ≤ sigma * s) (hu : 0 ≤ u) (ht : 0 ≤ t) :
    0 ≤ sigma
      * (l * u ^ 2 + (6 * s - 2 * l - 2 * r) * (t * u) + r * t ^ 2) := by
  have hcircle := h.circle same
  rcases eq_or_ne s 0 with rfl | hs
  · obtain ⟨rfl, rfl⟩ := h.eq_zero
    exact le_of_eq (by ring)
  · have hsq : 0 < s ^ 2 := by positivity
    -- multiplied by the secant, everything is at least zero
    have hscaled : 0 ≤ l * s * u ^ 2
        + (6 * s ^ 2 - 2 * (l * s) - 2 * (r * s)) * (t * u)
        + r * s * t ^ 2 := by
      refine bernstein_nonneg hsq.le h.left_along h.right_along ?_ hu ht
      have := mul_le_mul_of_nonneg_right hcircle hsq.le
      linarith
    have hprod := mul_nonneg along hscaled
    refine nonneg_of_mul_nonneg_right (a := s ^ 2) ?_ hsq
    linarith

end Limiter.Tame

/-- The slope of a segment has the direction of its secant all the way. -/
theorem Segment.eval_first_along {s : Segment ℝ} (hw : 0 < s.width)
    (tame : Tame b s.secant s.left.slope s.right.slope)
    (same : 0 ≤ b * s.secant) (along : 0 ≤ sigma * s.secant) {x : ℝ}
    (h₀ : s.left.x ≤ x) (h₁ : x ≤ s.right.x) :
    0 ≤ sigma * s.eval .first x := by
  obtain ⟨ht₀, ht₁⟩ := s.fraction_mem hw h₀ h₁
  rw [s.eval_first hw.ne']
  exact tame.derivative_along same along (sub_nonneg.mpr ht₁) ht₀

/-! ## Curves -/

namespace Curve

section Direction

variable {c : Curve ℝ} (asc : c.Ascending)

include asc

/-- A slope that has a direction on all segments has it everywhere. -/
theorem continued_first_along
    (h : ∀ (i : Fin (c.inner + 1)) (x : ℝ), (c.segment i).left.x ≤ x →
      x ≤ (c.segment i).right.x → 0 ≤ sigma * (c.segment i).eval .first x)
    (x : ℝ) : 0 ≤ sigma * c.continued .first x := by
  rcases lt_or_ge x c.xMin with hmin | hmin
  · have hslope : c.continued .first x = c.leftSlope :=
      (asc.isPiece_left x hmin.le).2.1
    rw [hslope]
    have hle : c.xMin ≤ (c.segment 0).right.x := asc.le (by omega) (by omega)
    exact h 0 _ (le_refl _) hle
  rcases le_or_gt x c.xMax with hmax | hmax
  · obtain ⟨h₀, h₁⟩ := asc.mem_segment hmin hmax
    rw [((asc.isPiece_segment _) x ⟨h₀, h₁⟩).2.1]
    exact h _ x h₀ h₁
  · have hslope : c.continued .first x = c.rightSlope :=
      (asc.isPiece_right x hmax.le).2.1
    rw [hslope]
    have hle : (c.segment (Fin.last _)).left.x ≤ c.xMax :=
      asc.le (by omega) (by omega)
    exact h (Fin.last _) _ hle (le_refl _)

/-- A curve whose slope has a direction everywhere goes in that direction. -/
theorem continued_value_along
    (h : ∀ x, 0 ≤ sigma * c.continued .first x) {x₀ x₁ : ℝ}
    (hle : x₀ ≤ x₁) :
    sigma * c.continued .value x₀ ≤ sigma * c.continued .value x₁ := by
  have hderiv := fun x => (asc.hasDerivAt_continued x).const_mul sigma
  refine monotone_of_deriv_nonneg (fun x => (hderiv x).differentiableAt)
    (fun x => ?_) hle
  rw [(hderiv x).deriv]
  exact h x

end Direction

variable {m : ℕ} {p : Vector (Point ℝ) (m + 2)}

/-- Numbers that have one direction do not differ in it. -/
theorem mul_nonneg_of_along (hs : sigma ≠ 0) (hb : 0 ≤ sigma * b)
    (h : 0 ≤ sigma * s) : 0 ≤ b * s := by
  have hprod : 0 ≤ sigma ^ 2 * (b * s) := by
    have := mul_nonneg hb h
    linarith
  exact nonneg_of_mul_nonneg_right hprod (by positivity)

/-- **THE DIRECTION** of all points is that of the slope of their monotonic
    curve, at every position. -/
theorem monotonic_first_along (hs : sigma ≠ 0) (asc : Moments.Ascending p)
    (along : ∀ k : Fin (m + 1),
      sigma * (p.get k.castSucc).y ≤ sigma * (p.get k.succ).y)
    (x : ℝ) :
    0 ≤ sigma
      * (ofSlopes .monotonic p (Limiter.slopes p)).continued .first x := by
  have hasc := ascending_ofSlopes .monotonic (Limiter.slopes p) asc
  have hsecants : ∀ k : Fin (m + 1),
      0 ≤ sigma * (Moments.secants p).get k := by
    intro k
    rw [Moments.get_secants, ← mul_div_assoc, mul_sub]
    exact div_nonneg (sub_nonneg.mpr (along k)) (asc.widths_pos k).le
  refine continued_first_along hasc (fun (i : Fin (m + 1)) x h₀ h₁ => ?_) x
  have hsecant := secant_ofSlopes (p := p) .monotonic (Limiter.slopes p) i
  refine Segment.eval_first_along (hasc.width_pos i) (tame_segment i) ?_ ?_ h₀
    h₁
  · rw [hsecant]
    exact mul_nonneg_of_along hs (hsecants _) (hsecants i)
  · rw [hsecant]
    exact hsecants i

variable {sort : Bool} {points : List (Point ℝ)}

/-- Points in one direction make a curve whose slope, values and monotonicity
    have that direction. -/
theorem fit_monotonic_along (hs : sigma ≠ 0) (two : 2 ≤ points.length)
    (order : InOrder sort points)
    (along : (arrange sort points).Pairwise fun p q =>
      sigma * p.y ≤ sigma * q.y) :
    ∃ c : Curve ℝ, (fit .monotonic sort points).result = .ok c
      ∧ c.points.toList = arrange sort points
      ∧ (∀ x, 0 ≤ sigma * c.continued .first x)
      ∧ (∀ x₀ x₁, x₀ ≤ x₁ →
        sigma * c.continued .value x₀ ≤ sigma * c.continued .value x₁)
      ∧ ∀ x₀ x₁, x₀ ≠ x₁ → ∃ m, c.trend x₀ x₁ true = .ok m
        ∧ m.Along sigma := by
  obtain ⟨m, p, -, hp, asc, hfit⟩ := order.exists_through two
  have hasc := ascending_ofSlopes .monotonic (Limiter.slopes p) asc
  rw [← hp] at along
  have hfirst := monotonic_first_along hs asc fun k =>
    rel_get_of_pairwise along k.castSucc_lt_succ
  obtain ⟨hresult, hpoints⟩ := fit_of_slopes (hfit .monotonic) hp rfl
  exact ⟨_, hresult, hpoints, hfirst,
    fun x₀ x₁ hle => continued_value_along hasc hfirst hle,
    fun x₀ x₁ hne => along_trend hasc hs hne fun x _ _ => hfirst x⟩

/-- **MONOTONIC CURVES KEEP THE DIRECTION** of points that never fall or
    never rise: so do their slope, their values and their monotonicity, at
    every position and over every interval. -/
theorem fit_monotonic_keeps_direction (sort : Bool)
    (points : List (Point ℝ)) (two : 2 ≤ points.length)
    (order : InOrder sort points) :
    ((arrange sort points).Pairwise (fun p q => p.y ≤ q.y) →
      ∃ c : Curve ℝ, (fit .monotonic sort points).result = .ok c
        ∧ c.points.toList = arrange sort points
        ∧ (∀ x, ∃ v, c.eval .first true x = .ok v ∧ 0 ≤ v)
        ∧ (∀ x₀ x₁, x₀ ≤ x₁ → ∃ v₀ v₁, c.eval .value true x₀ = .ok v₀
          ∧ c.eval .value true x₁ = .ok v₁ ∧ v₀ ≤ v₁)
        ∧ ∀ x₀ x₁, x₀ ≠ x₁ → c.trend x₀ x₁ true = .ok .increasing
          ∨ c.trend x₀ x₁ true = .ok .constant)
      ∧ ((arrange sort points).Pairwise (fun p q => q.y ≤ p.y) →
        ∃ c : Curve ℝ, (fit .monotonic sort points).result = .ok c
          ∧ c.points.toList = arrange sort points
          ∧ (∀ x, ∃ v, c.eval .first true x = .ok v ∧ v ≤ 0)
          ∧ (∀ x₀ x₁, x₀ ≤ x₁ → ∃ v₀ v₁, c.eval .value true x₀ = .ok v₀
            ∧ c.eval .value true x₁ = .ok v₁ ∧ v₁ ≤ v₀)
          ∧ ∀ x₀ x₁, x₀ ≠ x₁ → c.trend x₀ x₁ true = .ok .decreasing
            ∨ c.trend x₀ x₁ true = .ok .constant) := by
  constructor
  · intro rising
    obtain ⟨c, hc, hp, hfirst, hvalue, htrend⟩ :=
      fit_monotonic_along (show (1 : ℝ) ≠ 0 from one_ne_zero) two order
        (rising.imp fun h => by linarith)
    refine ⟨c, hc, hp, fun x => ⟨_, c.eval_true _ x, ?_⟩,
      fun x₀ x₁ hle => ⟨_, _, c.eval_true _ x₀, c.eval_true _ x₁, ?_⟩,
      fun x₀ x₁ hne => ?_⟩
    · linarith [hfirst x]
    · linarith [hvalue x₀ x₁ hle]
    · obtain ⟨m, hm, rfl | ⟨rfl, -⟩ | ⟨rfl, hneg⟩⟩ := htrend x₀ x₁ hne
      · exact Or.inr hm
      · exact Or.inl hm
      · exact absurd hneg (by norm_num)
  · intro falling
    obtain ⟨c, hc, hp, hfirst, hvalue, htrend⟩ :=
      fit_monotonic_along (show (-1 : ℝ) ≠ 0 by norm_num) two order
        (falling.imp fun h => by linarith)
    refine ⟨c, hc, hp, fun x => ⟨_, c.eval_true _ x, ?_⟩,
      fun x₀ x₁ hle => ⟨_, _, c.eval_true _ x₀, c.eval_true _ x₁, ?_⟩,
      fun x₀ x₁ hne => ?_⟩
    · linarith [hfirst x]
    · linarith [hvalue x₀ x₁ hle]
    · obtain ⟨m, hm, rfl | ⟨rfl, hpos⟩ | ⟨rfl, -⟩⟩ := htrend x₀ x₁ hne
      · exact Or.inr hm
      · exact absurd hpos (by norm_num)
      · exact Or.inl hm

/-- A flat piece and a step, upwards and downwards. -/
theorem fit_monotonic_keeps_direction_step :
    (∃ c : Curve ℝ, (fit .monotonic false
        [(⟨0, 0⟩ : Point ℝ), ⟨1, 0⟩, ⟨3, 5⟩]).result = .ok c
      ∧ ∀ x, ∃ v, c.eval .first true x = .ok v ∧ 0 ≤ v)
      ∧ ∃ c : Curve ℝ, (fit .monotonic false
          [(⟨0, 5⟩ : Point ℝ), ⟨1, 5⟩, ⟨3, 0⟩]).result = .ok c
        ∧ ∀ x, ∃ v, c.eval .first true x = .ok v ∧ v ≤ 0 := by
  have asc : ∀ y₀ y₁ y₂ : ℝ,
      [(⟨0, y₀⟩ : Point ℝ), ⟨1, y₁⟩, ⟨3, y₂⟩].Pairwise
        fun p q => p.x < q.x := by
    intro y₀ y₁ y₂
    norm_num
  have order : ∀ y₀ y₁ y₂ : ℝ,
      InOrder false [⟨0, y₀⟩, ⟨1, y₁⟩, ⟨3, y₂⟩] := by
    intro y₀ y₁ y₂
    rw [InOrder, arrange_of_ascending (asc y₀ y₁ y₂)]
    exact asc y₀ y₁ y₂
  constructor
  · obtain ⟨c, hc, -, hfirst, -⟩ := (fit_monotonic_keeps_direction false
      [⟨0, 0⟩, ⟨1, 0⟩, ⟨3, 5⟩] (by decide) (order 0 0 5)).1
      (by rw [arrange_of_ascending (asc 0 0 5)]; norm_num)
    exact ⟨c, hc, hfirst⟩
  · obtain ⟨c, hc, -, hfirst, -⟩ := (fit_monotonic_keeps_direction false
      [⟨0, 5⟩, ⟨1, 5⟩, ⟨3, 0⟩] (by decide) (order 5 5 0)).2
      (by rw [arrange_of_ascending (asc 5 5 0)]; norm_num)
    exact ⟨c, hc, hfirst⟩

end Curve

end PiecewiseCubic
