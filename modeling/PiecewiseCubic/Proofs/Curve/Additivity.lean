import PiecewiseCubic.Proofs.Curve.Sampling
import PiecewiseCubic.Proofs.Curve.Verdict
import PiecewiseCubic.Proofs.Monotonicity

/-! # Monotonicity over two neighbouring intervals

    An interval that is cut at a knot has the same pieces as its two halves
    together, in the same order: a segment before the knot has no part in the
    second half and the same part in the first half as in the whole, and a
    segment behind the knot the other way round.  So the two monotonicities
    combine to that of the whole interval. -/

namespace PiecewiseCubic.Curve

variable {α : Type} [Scalar α] [LawfulScalar α] {c : Curve α}

namespace Sorted

variable (sorted : c.Sorted)

include sorted

omit [LawfulScalar α] in
/-- A knot is not behind a later one. -/
theorem knot_eq_or_lt {i j : Fin (c.inner + 2)} (h : i ≤ j) :
    (c.knots.get i).x = (c.knots.get j).x
      ∨ (c.knots.get i).x < (c.knots.get j).x := by
  rcases h.eq_or_lt with rfl | hlt
  · exact Or.inl rfl
  · exact Or.inr (sorted i j hlt)

/-- A knot is not before an earlier one. -/
theorem not_knot_lt {i j : Fin (c.inner + 2)} (h : i ≤ j) :
    ¬ (c.knots.get j).x < (c.knots.get i).x := by
  rcases sorted.knot_eq_or_lt h with heq | hlt
  · rw [heq]
    exact LawfulScalar.lt_irrefl _
  · exact LawfulScalar.not_lt_of_lt hlt

/-- The knots lie in the range. -/
theorem covers_knot (k : Fin (c.inner + 2)) :
    c.covers (c.knots.get k).x = true :=
  sorted.covers_iff_not_lt.mpr ⟨sorted.defined k,
    sorted.not_knot_lt (Fin.zero_le k), sorted.not_knot_lt (Fin.le_last k)⟩

variable {k : Fin (c.inner + 2)} {lo hi : α}

/-- **BEFORE THE KNOT** a segment has the same part in the first half as in
    the whole interval. -/
theorem partTrend?_of_before (lo : α) (hhi : hi = (c.knots.get k).x
    ∨ (c.knots.get k).x < hi) {i : Fin (c.inner + 1)} (h : i.val < k.val) :
    c.partTrend? lo (c.knots.get k).x i = c.partTrend? lo hi i := by
  have hright : (c.segment i).right.x = (c.knots.get k).x
      ∨ (c.segment i).right.x < (c.knots.get k).x := by
    refine sorted.knot_eq_or_lt ?_
    exact (h : i.succ ≤ k)
  rw [partTrend?, partTrend?, LawfulScalar.min_eq_min hright hhi]

/-- It has none in the second half. -/
theorem partTrend?_eq_none_of_before (hi : α) {i : Fin (c.inner + 1)}
    (h : i.val < k.val) : c.partTrend? (c.knots.get k).x hi i = none := by
  have hle : i.succ ≤ k := h
  refine if_neg fun hpart => sorted.not_knot_lt hle ?_
  exact ((sorted.hasPart_iff i).mp hpart).2.1

/-- **BEHIND THE KNOT** a segment has the same part in the second half as in
    the whole interval. -/
theorem partTrend?_of_behind (hi : α) (hlo : lo = (c.knots.get k).x
    ∨ lo < (c.knots.get k).x) {i : Fin (c.inner + 1)} (h : k.val ≤ i.val) :
    c.partTrend? (c.knots.get k).x hi i = c.partTrend? lo hi i := by
  have hleft : (c.segment i).left.x = (c.knots.get k).x
      ∨ (c.knots.get k).x < (c.segment i).left.x := by
    refine (sorted.knot_eq_or_lt ?_).imp_left Eq.symm
    exact (h : k ≤ i.castSucc)
  rw [partTrend?, partTrend?, LawfulScalar.max_eq_max hleft hlo]

/-- It has none in the first half. -/
theorem partTrend?_eq_none_of_behind (lo : α) {i : Fin (c.inner + 1)}
    (h : k.val ≤ i.val) : c.partTrend? lo (c.knots.get k).x i = none := by
  have hle : k ≤ i.castSucc := h
  refine if_neg fun hpart => sorted.not_knot_lt hle ?_
  exact ((sorted.hasPart_iff i).mp hpart).2.2

/-- The parts of the segments in an interval are those in its first half and
    then those in its second half. -/
theorem filterMap_partTrend? (hlo : lo = (c.knots.get k).x
    ∨ lo < (c.knots.get k).x) (hhi : hi = (c.knots.get k).x
    ∨ (c.knots.get k).x < hi) :
    (List.finRange (c.inner + 1)).filterMap (c.partTrend? lo hi)
      = (List.finRange (c.inner + 1)).filterMap
          (c.partTrend? lo (c.knots.get k).x)
        ++ (List.finRange (c.inner + 1)).filterMap
          (c.partTrend? (c.knots.get k).x hi) := by
  let before := (List.finRange (c.inner + 1)).take k.val
  let behind := (List.finRange (c.inner + 1)).drop k.val
  have hall : List.finRange (c.inner + 1) = before ++ behind :=
    (List.take_append_drop k.val _).symm
  have hbefore : ∀ i ∈ before, i.val < k.val := by
    intro i hi
    obtain ⟨j, hj, rfl⟩ := List.mem_take_iff_getElem.mp hi
    simpa using (lt_min_iff.mp hj).1
  have hbehind : ∀ i ∈ behind, k.val ≤ i.val := by
    intro i hi
    obtain ⟨j, hj, rfl⟩ := List.mem_drop_iff_getElem.mp hi
    simp
  have hfirst : (before ++ behind).filterMap
      (c.partTrend? lo (c.knots.get k).x)
        = before.filterMap (c.partTrend? lo hi) := by
    rw [List.filterMap_append, List.filterMap_eq_nil_iff.mpr fun i hi =>
      sorted.partTrend?_eq_none_of_behind lo (hbehind i hi), List.append_nil]
    exact List.filterMap_congr fun i hi =>
      sorted.partTrend?_of_before lo hhi (hbefore i hi)
  have hsecond : (before ++ behind).filterMap
      (c.partTrend? (c.knots.get k).x hi)
        = behind.filterMap (c.partTrend? lo hi) := by
    rw [List.filterMap_append, List.filterMap_eq_nil_iff.mpr fun i hi' =>
      sorted.partTrend?_eq_none_of_before hi (hbefore i hi'),
      List.nil_append]
    exact List.filterMap_congr fun i hi' =>
      sorted.partTrend?_of_behind hi hlo (hbehind i hi')
  rw [hall, hfirst, hsecond, List.filterMap_append]

/-- **THE PIECES OF TWO HALVES** are those of the whole interval. -/
theorem pieceTrends_append {x₀ x₂ : α} (h₀ : x₀ < (c.knots.get k).x)
    (h₂ : (c.knots.get k).x < x₂) :
    c.pieceTrends x₀ x₂
      = c.pieceTrends x₀ (c.knots.get k).x
        ++ c.pieceTrends (c.knots.get k).x x₂ := by
  have hmin : ¬ (c.knots.get k).x < c.xMin :=
    sorted.not_knot_lt (Fin.zero_le k)
  have hmax : ¬ c.xMax < (c.knots.get k).x := sorted.not_knot_lt (Fin.le_last k)
  have hlo : Scalar.max x₀ c.xMin = (c.knots.get k).x
      ∨ Scalar.max x₀ c.xMin < (c.knots.get k).x := by
    rw [Scalar.max]
    split_ifs
    · exact sorted.knot_eq_or_lt (Fin.zero_le k)
    · exact Or.inr h₀
  have hhi : Scalar.min x₂ c.xMax = (c.knots.get k).x
      ∨ (c.knots.get k).x < Scalar.min x₂ c.xMax := by
    rw [Scalar.min]
    split_ifs
    · exact (sorted.knot_eq_or_lt (Fin.le_last k)).imp_left Eq.symm
    · exact Or.inr h₂
  -- the knot is in the range, so it bounds both halves and neither has a
  -- continuation at it
  have hmaxKnot : Scalar.max (c.knots.get k).x c.xMin = (c.knots.get k).x :=
    if_neg hmin
  have hminKnot : Scalar.min (c.knots.get k).x c.xMax = (c.knots.get k).x :=
    if_neg hmax
  simp only [pieceTrends, sorted.partTrends_eq, hmaxKnot, hminKnot,
    if_neg hmin, if_neg hmax, List.append_nil, List.nil_append]
  rw [sorted.filterMap_partTrend? hlo hhi]
  simp only [List.append_assoc]

end Sorted

/-- **MONOTONICITY ADDS UP AT KNOTS**: over two positions around a knot, in the
    range or with the continuations, the curve has the monotonicity that those
    from the first position to the knot and from the knot to the second
    position combine to. -/
theorem trend_additive (sorted : c.Sorted) (k : Fin (c.inner + 2)) {x₀ x₂ : α}
    (h₀ : x₀ < (c.knots.get k).x) (h₂ : (c.knots.get k).x < x₂)
    (extrapolate : Bool)
    (admitted : extrapolate = true
      ∨ c.covers x₀ = true ∧ c.covers x₂ = true) :
    ∃ r s, c.trend x₀ (c.knots.get k).x extrapolate = .ok r
      ∧ c.trend (c.knots.get k).x x₂ extrapolate = .ok s
      ∧ c.trend x₀ x₂ extrapolate = .ok (Monotonicity.combine r s) := by
  have hknot := sorted.covers_knot k
  refine ⟨_, _, trend_of_lt h₀ (admitted.imp_right fun h => ⟨h.1, hknot⟩),
    trend_of_lt h₂ (admitted.imp_right fun h => ⟨hknot, h.2⟩), ?_⟩
  rw [trend_of_lt (LawfulScalar.lt_trans h₀ h₂) admitted,
    sorted.pieceTrends_append h₀ h₂, Monotonicity.reduce_append]

/-- Up to the middle between its knots the parabola rises. -/
theorem trend_arch {x₀ x₁ : ℝ} (h : x₀ < x₁) (h₁ : x₁ < 1 / 2) :
    (arch : Curve ℝ).trend x₀ x₁ true = .ok .increasing := by
  have hrises : ∀ x ∈ Set.Icc x₀ x₁,
      0 < deriv ((arch : Curve ℝ).continued .value) x := by
    intro x hx
    rcases le_total x 0 with hneg | hpos
    · rw [deriv_arch.1 hneg]
      exact one_pos
    · rw [deriv_arch.2 hpos (by linarith [hx.2])]
      linarith [hx.2]
  rw [trend_of_lt h (Or.inl rfl)]
  have hj := ascending_arch.justified_reduce h
  generalize Monotonicity.reduce .constant
    ((arch : Curve ℝ).pieceTrends x₀ x₁) = m at hj ⊢
  cases m with
  | increasing => rfl
  | mixed =>
      obtain ⟨-, x, hx, hfalls⟩ := hj
      exact absurd hfalls (hrises x hx).not_gt
  | decreasing =>
      obtain ⟨⟨x, hx, hfalls⟩, -⟩ := hj
      exact absurd hfalls (hrises x hx).not_gt
  | constant =>
      -- the piece that the interval begins on has slope one at the first knot
      have hsteep : ¬ |(1 : ℝ)| ≤ 1e-20 := by norm_num
      rcases lt_or_ge x₀ 0 with hneg | hpos
      · have hflat := hj .before (lt_min h hneg)
        rw [Piece.Negligible, ascending_arch.leftSlope_eq] at hflat
        exact absurd hflat hsteep
      · have hcovered : (Piece.on (0 : Fin 1) : (arch : Curve ℝ).Piece).Covered
            x₀ x₁ := by
          show max x₀ 0 < min x₁ 1
          rw [max_eq_left hpos]
          exact lt_min h (by linarith)
        obtain ⟨-, -, hflat⟩ := hj _ hcovered
        replace hflat : |((arch : Curve ℝ).segment (0 : Fin 1)).localCubic.c|
          < 1e-20 := hflat
        rw [localCubic_arch] at hflat
        exact absurd hflat.le hsteep

/-- The continuation before the first knot rises, and so does the segment
    behind it. -/
theorem trend_additive_arch :
    (arch : Curve ℝ).Sorted
      ∧ (arch : Curve ℝ).trend (-1) 0 true = .ok .increasing
      ∧ (arch : Curve ℝ).trend 0 (1 / 4) true = .ok .increasing
      ∧ (arch : Curve ℝ).trend (-1) (1 / 4) true
        = .ok (Monotonicity.combine .increasing .increasing) := by
  have hfirst : (arch : Curve ℝ).trend (-1) 0 true = .ok .increasing :=
    trend_arch (by norm_num) (by norm_num)
  have hsecond : (arch : Curve ℝ).trend 0 (1 / 4) true = .ok .increasing :=
    trend_arch (by norm_num) (by norm_num)
  have h₀ : (-1 : ℝ) < 0 := by norm_num
  have h₂ : (0 : ℝ) < 1 / 4 := by norm_num
  obtain ⟨r, s, hr, hs, hwhole⟩ := trend_additive ascending_arch.sorted
    (0 : Fin 2) h₀ h₂ true (Or.inl rfl)
  obtain rfl : r = .increasing := Except.ok.inj (hr.symm.trans hfirst)
  obtain rfl : s = .increasing := Except.ok.inj (hs.symm.trans hsecond)
  exact ⟨ascending_arch.sorted, hfirst, hsecond, hwhole⟩

end PiecewiseCubic.Curve
