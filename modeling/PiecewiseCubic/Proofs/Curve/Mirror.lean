import PiecewiseCubic.Proofs.Curve.Trend
import PiecewiseCubic.Proofs.Monotonicity

/-! # Mirrored curves

    A curve whose values and slopes are negated is its mirror image.  Every
    derivative of it is the negated one, since a segment is a sum of values
    and slopes with weights that do not depend on them.  Its monotonicity is
    the reversed one, although a slope that is not positive counts as falling:
    a direction is only read off where the slope is not zero, and the roots
    that are looked for are the same on both sides. -/

namespace PiecewiseCubic

namespace Monotonicity

/-- The two directions exchanged. -/
def reversed : Monotonicity → Monotonicity
  | .decreasing => .increasing
  | .mixed => .mixed
  | .increasing => .decreasing
  | .constant => .constant

/-- Reversed pieces combine to the reversed whole. -/
theorem combine_reversed (r s : Monotonicity) :
    combine r.reversed s.reversed = (combine r s).reversed := by
  cases r <;> cases s <;> rfl

/-- **REVERSED PARTS** make the reversed whole. -/
theorem reduce_reversed (whole : Monotonicity) (ms : List Monotonicity) :
    reduce whole.reversed (ms.map reversed) = (reduce whole ms).reversed := by
  rw [reduce_eq_foldl, reduce_eq_foldl, List.foldl_map]
  exact List.foldl_hom reversed combine_reversed

/-- The sign of a number that is not zero is exchanged with the number's. -/
theorem ofSign_neg {v : ℝ} (hv : v ≠ 0) :
    ofSign (-v) = (ofSign v).reversed := by
  rcases hv.lt_or_gt with hneg | hpos
  · rw [ofSign_of_nonpos hneg.le, ofSign_of_pos (neg_pos.mpr hneg)]
    rfl
  · rw [ofSign_of_pos hpos, ofSign_of_nonpos (neg_nonpos.mpr hpos.le)]
    rfl

/-- A mirrored line runs the other way. -/
theorem ofSlope_neg {tol : ℝ} (htol : 0 ≤ tol) (slope : ℝ) :
    ofSlope (-slope) tol = (ofSlope slope tol).reversed := by
  have habs : |-slope| = |slope| := abs_neg slope
  rcases le_or_gt |slope| tol with hsmall | hsteep
  · rw [ofSlope_of_le hsmall, ofSlope_of_le (habs.trans_le hsmall)]
    rfl
  · have hne : slope ≠ 0 := abs_pos.mp (htol.trans_lt hsteep)
    rw [ofSlope_of_lt hsteep, ofSlope_of_lt (hsteep.trans_eq habs.symm),
      ofSign_neg hne]

end Monotonicity

/-! ## Segments -/

section Mirror

variable {α : Type} [Scalar α]

/-- The knot with value and slope negated. -/
def Knot.mirrored (k : Knot α) : Knot α := ⟨k.x, -k.y, -k.slope⟩

/-- The segment between the mirrored knots. -/
def Segment.mirrored (s : Segment α) : Segment α :=
  ⟨s.left.mirrored, s.right.mirrored⟩

/-- The curve through the mirrored knots. -/
def Curve.mirrored (c : Curve α) : Curve α :=
  ⟨c.family, c.inner, c.knots.map Knot.mirrored⟩

end Mirror

namespace Segment

open Monotonicity

/-- **A MIRRORED SEGMENT** has the negated derivatives. -/
theorem eval_mirrored (s : Segment ℝ) (order : Order) (x : ℝ) :
    s.mirrored.eval order x = -s.eval order x := by
  have hsum (w : HermiteWeights ℝ) :
      w.leftValue * -s.left.y + w.leftSlope * -s.left.slope * s.width
          + w.rightValue * -s.right.y + w.rightSlope * -s.right.slope * s.width
        = -(w.leftValue * s.left.y + w.leftSlope * s.left.slope * s.width
          + w.rightValue * s.right.y
          + w.rightSlope * s.right.slope * s.width) := by
    ring
  cases order with
  | value => exact hsum _
  | first | second | third =>
      exact (congrArg (· / _) (hsum _)).trans (neg_div _ _)

theorem secant_mirrored (s : Segment ℝ) : s.mirrored.secant = -s.secant := by
  show (-s.right.y - -s.left.y) / s.width = -((s.right.y - s.left.y) / s.width)
  ring

theorem slopeCoefficients_mirrored (s : Segment ℝ) :
    s.mirrored.slopeCoefficients
      = (-s.slopeCoefficients.1, -s.slopeCoefficients.2.1,
        -s.slopeCoefficients.2.2) := by
  have hsecant := s.secant_mirrored
  refine Prod.ext ?_ (Prod.ext ?_ rfl)
  · show 3 * ((-s.left.slope + -s.right.slope - 2 * s.mirrored.secant)
        / s.width ^ 2)
      = -(3 * ((s.left.slope + s.right.slope - 2 * s.secant) / s.width ^ 2))
    rw [hsecant]
    ring
  · show 2 * ((3 * s.mirrored.secant - 2 * -s.left.slope - -s.right.slope)
        / s.width)
      = -(2 * ((3 * s.secant - 2 * s.left.slope - s.right.slope) / s.width))
    rw [hsecant]
    ring

variable {a b c s₀ s₁ : ℝ}

theorem slopeAt_neg (s : ℝ) :
    slopeAt (-a) (-b) (-c) s = -slopeAt a b c s := by
  rw [slopeAt, slopeAt]
  ring

/-- Whether there is a root inside does not depend on the order of the
    roots. -/
theorem hasRootInside_congr {roots roots' : List ℝ}
    (h : ∀ r, r ∈ roots' ↔ r ∈ roots) :
    hasRootInside s₀ s₁ roots' = hasRootInside s₀ s₁ roots := by
  rw [Bool.eq_iff_iff, hasRootInside, hasRootInside, List.any_eq_true,
    List.any_eq_true]
  exact exists_congr fun r => and_congr_left fun _ => h r

/-- Two lists with all roots of a quadratic and of its mirror image decide the
    other way. -/
theorem byRoots_neg (hlt : s₀ < s₁) {roots roots' : List ℝ}
    (hroots : ∀ r, r ∈ roots ↔ slopeAt a b c r = 0)
    (hroots' : ∀ r, r ∈ roots' ↔ slopeAt (-a) (-b) (-c) r = 0) :
    byRoots (-a) (-b) (-c) s₀ s₁ roots'
      = (byRoots a b c s₀ s₁ roots).reversed := by
  have hsame (r : ℝ) : r ∈ roots' ↔ r ∈ roots := by
    rw [hroots, hroots', slopeAt_neg, neg_eq_zero]
  rw [byRoots, byRoots, hasRootInside_congr hsame, slopeAt_neg]
  split_ifs with hinside
  · rfl
  · exact ofSign_neg (slopeAt_ne_zero_of_not_hasRootInside hroots hinside
      (middle_mem hlt))

/-- A line and its mirror image run opposite ways. -/
theorem byRoots_linear_neg (hlt : s₀ < s₁) (hline : b ≠ 0 ∨ c ≠ 0) :
    byRoots (-0) (-b) (-c) s₀ s₁ (Roots.linear (-b) (-c))
      = (byRoots 0 b c s₀ s₁ (Roots.linear b c)).reversed := by
  have hslope (b c r : ℝ) : slopeAt 0 b c r = b * r + c := by
    rw [slopeAt, zero_mul, zero_add]
  refine byRoots_neg hlt (fun r => ?_) fun r => ?_
  · rw [Roots.mem_linear_iff hline, hslope]
  · rw [Roots.mem_linear_iff (hline.imp neg_ne_zero.mpr neg_ne_zero.mpr),
      neg_zero, hslope]

/-- A quadratic and its mirror image have the same roots. -/
theorem byRoots_quadratic_neg (hlt : s₀ < s₁) (ha : a ≠ 0) :
    byRoots (-a) (-b) (-c) s₀ s₁ (Roots.quadratic (-a) (-b) (-c))
      = (byRoots a b c s₀ s₁ (Roots.quadratic a b c)).reversed := by
  have hslope (a b c r : ℝ) : slopeAt a b c r = a * r ^ 2 + b * r + c := by
    rw [slopeAt]
    ring
  refine byRoots_neg hlt (fun r => ?_) fun r => ?_
  · rw [Roots.mem_quadratic_iff (Or.inl ha), hslope]
  · rw [Roots.mem_quadratic_iff (Or.inl (neg_ne_zero.mpr ha)), hslope]

/-- **ONE QUADRATIC** and its mirror image run opposite ways. -/
theorem trendOfSlope_neg (hlt : s₀ < s₁) :
    trendOfSlope (-a) (-b) (-c) s₀ s₁
      = (trendOfSlope a b c s₀ s₁).reversed := by
  have hdisc : (-b) * -b - 4 * (-a) * -c = b * b - 4 * a * c := by ring
  have hcenter : - -b / (2 * -a) = -b / (2 * a) := by
    rw [mul_neg, neg_div_neg_eq]
  simp only [trendOfSlope_eq, hdisc, hcenter, neg_eq_zero, abs_neg]
  split_ifs with hsmall ha hneg hzero hfirst
  · rfl
  · subst ha
    refine byRoots_linear_neg hlt ?_
    by_contra! hline
    obtain ⟨rfl, rfl⟩ := hline
    have htiny := abs_zero.trans_lt negligible_pos
    exact hsmall ⟨htiny, htiny, htiny⟩
  · rw [slopeAt_neg]
    exact ofSign_neg (slopeAt_ne_zero_of_neg hneg _)
  · rw [slopeAt_neg]
    refine ofSign_neg fun hroot => hlt.ne ?_
    rw [← hfirst, eq_of_double ha hzero hroot]
  · rw [slopeAt_neg]
    exact ofSign_neg fun hroot => hfirst (eq_of_double ha hzero hroot)
  · exact byRoots_quadratic_neg hlt ha

/-- **A MIRRORED PART** of a segment runs the other way. -/
theorem trend_mirrored (s : Segment ℝ) {x₀ x₁ : ℝ} (hlt : x₀ < x₁) :
    s.mirrored.trend x₀ x₁ = (s.trend x₀ x₁).reversed := by
  rw [trend, slopeCoefficients_mirrored]
  exact trendOfSlope_neg (sub_lt_sub_right hlt s.left.x)

end Segment

/-! ## Curves -/

namespace Curve

section Places

variable {α : Type} [Scalar α] (c : Curve α)

theorem segment_mirrored (i : Fin (c.inner + 1)) :
    c.mirrored.segment i = (c.segment i).mirrored :=
  congrArg₂ Segment.mk (Vector.getElem_map _ _) (Vector.getElem_map _ _)

theorem firstKnot_mirrored : c.mirrored.firstKnot = c.firstKnot.mirrored :=
  Vector.getElem_map _ _

theorem lastKnot_mirrored : c.mirrored.lastKnot = c.lastKnot.mirrored :=
  Vector.getElem_map _ _

theorem xMin_mirrored : c.mirrored.xMin = c.xMin := by
  rw [xMin, firstKnot_mirrored]
  rfl

theorem xMax_mirrored : c.mirrored.xMax = c.xMax := by
  rw [xMax, lastKnot_mirrored]
  rfl

theorem covers_mirrored (x : α) : c.mirrored.covers x = c.covers x := by
  rw [covers, covers, xMin_mirrored, xMax_mirrored]

/-- The halving only looks at the positions of the knots. -/
theorem bisect_mirrored (x : α) (low high : ℕ) (lt : low < high)
    (le : high ≤ c.inner + 1) (le' : high ≤ c.mirrored.inner + 1) :
    c.mirrored.bisect x low high lt le' = c.bisect x low high lt le := by
  have hknot (k : ℕ) (hk : k < c.mirrored.inner + 2) :
      (c.mirrored.knots[k]).x = (c.knots.get ⟨k, hk⟩).x := by
    have hmap : c.mirrored.knots[k] = (c.knots.get ⟨k, hk⟩).mirrored :=
      Vector.getElem_map _ _
    rw [hmap]
    rfl
  fun_induction bisect c x low high lt le with
  | case1 low high lt le h mid hx ih =>
      rw [bisect.eq_def c.mirrored, dif_pos h, if_pos, ih]
      rwa [hknot]
  | case2 low high lt le h mid hx ih =>
      rw [bisect.eq_def c.mirrored, dif_pos h, if_neg, ih]
      rwa [hknot]
  | case3 low high lt le h =>
      rw [bisect.eq_def c.mirrored, dif_neg h]
      rfl

theorem segmentIndex_mirrored (x : α) :
    c.mirrored.segmentIndex x = c.segmentIndex x :=
  c.bisect_mirrored x _ _ _ _ _

theorem segmentsBetween_mirrored (lo hi : α) :
    c.mirrored.segmentsBetween lo hi = c.segmentsBetween lo hi := by
  rw [segmentsBetween, segmentsBetween, segmentIndex_mirrored,
    segmentIndex_mirrored]
  rfl

end Places

variable (c : Curve ℝ)

theorem inside_mirrored (order : Order) (x : ℝ) :
    c.mirrored.inside order x = -c.inside order x := by
  rw [inside, segmentIndex_mirrored, segment_mirrored,
    Segment.eval_mirrored]
  rfl

theorem leftSlope_mirrored : c.mirrored.leftSlope = -c.leftSlope := by
  rw [leftSlope, xMin_mirrored]
  exact (congrArg (Segment.eval · _ _) (c.segment_mirrored 0)).trans
    (Segment.eval_mirrored _ _ _)

theorem rightSlope_mirrored : c.mirrored.rightSlope = -c.rightSlope := by
  rw [rightSlope, xMax_mirrored]
  exact (congrArg (Segment.eval · _ _) (c.segment_mirrored _)).trans
    (Segment.eval_mirrored _ _ _)

/-- The straight line through a mirrored knot, with the negated slope. -/
theorem tail_mirrored (k : Knot ℝ) (slope : ℝ) (order : Order) (x : ℝ) :
    tail k.mirrored (-slope) order x = -tail k slope order x := by
  cases order with
  | value =>
      show -k.y + -slope * (x - k.x) = -(k.y + slope * (x - k.x))
      ring
  | first => rfl
  | second | third => exact neg_zero.symm

/-- **A MIRRORED CURVE** has the negated derivatives everywhere. -/
theorem continued_mirrored (order : Order) (x : ℝ) :
    c.mirrored.continued order x = -c.continued order x := by
  cases order with
  | value | first =>
      simp only [continued, xMin_mirrored, xMax_mirrored, firstKnot_mirrored,
        lastKnot_mirrored, leftSlope_mirrored, rightSlope_mirrored,
        tail_mirrored, inside_mirrored]
      split_ifs <;> rfl
  | second | third =>
      simp only [continued, covers_mirrored, inside_mirrored]
      split_ifs
      · rfl
      · exact neg_zero.symm

/-- A mirrored curve answers where the curve does. -/
theorem eval_mirrored (order : Order) (extrapolate : Bool) (x : ℝ) :
    c.mirrored.eval order extrapolate x
      = (c.eval order extrapolate x).map (-·) := by
  rw [eval, eval, covers_mirrored, continued_mirrored]
  split_ifs <;> rfl

/-! ## Monotonicity -/

theorem partTrend?_mirrored (lo hi : ℝ) (i : Fin (c.inner + 1)) :
    c.mirrored.partTrend? lo hi i
      = (c.partTrend? lo hi i).map Monotonicity.reversed := by
  simp only [partTrend?, segment_mirrored]
  show (if Scalar.max lo (c.segment i).left.x
      < Scalar.min hi (c.segment i).right.x then some _ else none) = _
  split_ifs with hlt
  · exact congrArg some (Segment.trend_mirrored _ hlt)
  · rfl

/-- The pieces of an interval run the other way, one by one. -/
theorem pieceTrends_mirrored (x₀ x₁ : ℝ) :
    c.mirrored.pieceTrends x₀ x₁
      = (c.pieceTrends x₀ x₁).map Monotonicity.reversed := by
  have hparts (lo hi : ℝ) :
      (c.segmentsBetween lo hi).filterMap (c.mirrored.partTrend? lo hi)
        = ((c.segmentsBetween lo hi).filterMap (c.partTrend? lo hi)).map
          Monotonicity.reversed := by
    rw [List.map_filterMap]
    exact List.filterMap_congr fun i _ => c.partTrend?_mirrored lo hi i
  have htail (slope : ℝ) :
      Monotonicity.ofSlope (-slope) negligible
        = (Monotonicity.ofSlope slope negligible).reversed :=
    Monotonicity.ofSlope_neg Segment.negligible_pos.le slope
  simp only [pieceTrends, xMin_mirrored, xMax_mirrored, leftSlope_mirrored,
    rightSlope_mirrored, segmentsBetween_mirrored, List.map_append,
    apply_ite (List.map Monotonicity.reversed), List.map_cons, List.map_nil,
    htail, hparts]

/-- **A MIRRORED CURVE** runs the other way over every interval, and refuses
    the intervals that the curve refuses. -/
theorem trend_mirrored (x₀ x₁ : ℝ) (extrapolate : Bool) :
    c.mirrored.trend x₀ x₁ extrapolate
      = (c.trend x₀ x₁ extrapolate).map Monotonicity.reversed := by
  have hwhole (x₀ x₁ : ℝ) :
      Monotonicity.reduce .constant (c.mirrored.pieceTrends x₀ x₁)
        = (Monotonicity.reduce .constant (c.pieceTrends x₀ x₁)).reversed := by
    rw [pieceTrends_mirrored]
    exact Monotonicity.reduce_reversed .constant _
  simp only [trend, xMin_mirrored, xMax_mirrored, hwhole]
  split_ifs <;> rfl

end Curve

end PiecewiseCubic
