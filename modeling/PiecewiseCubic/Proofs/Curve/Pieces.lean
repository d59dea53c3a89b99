import PiecewiseCubic.Proofs.Curve.Lookup
import PiecewiseCubic.Curve.Trend

/-! # The pieces of an interval

    Between two positions in order the walk visits the segments from the one
    of the first position to the one of the second, and each of them has a
    part there just if it begins before the second position and ends behind
    the first.  All segments that have a part are visited, so the parts are
    those of all segments of the curve. -/

namespace PiecewiseCubic

open Scalar

namespace LawfulScalar

variable {α : Type} [Scalar α] [LawfulScalar α] {a b x l r : α}

/-- What is before the smaller of two scalars is before both. -/
theorem lt_min_iff (hr : Defined r) :
    a < Scalar.min b r ↔ a < b ∧ a < r := by
  rw [Scalar.min]
  split_ifs with hlt
  · exact ⟨fun h => ⟨lt_trans h hlt, h⟩, And.right⟩
  · exact ⟨fun h => ⟨h, (lt_or_lt h hr).resolve_right hlt⟩, And.left⟩

/-- The larger of two scalars is before what both are before. -/
theorem max_lt_iff (hl : Defined l) :
    Scalar.max a l < b ↔ a < b ∧ l < b := by
  rw [Scalar.max]
  split_ifs with hlt
  · exact ⟨fun h => ⟨lt_trans hlt h, h⟩, And.right⟩
  · exact ⟨fun h => ⟨h, (lt_or_lt h hl).resolve_left hlt⟩, And.left⟩

/-- What is not behind `x` is the smaller one beside all that is not before
    `x`. -/
theorem min_eq_min (hr : r = x ∨ r < x) (hb : b = x ∨ x < b) :
    Scalar.min b r = Scalar.min x r := by
  rcases hb with rfl | hb
  · rfl
  · rcases hr with rfl | hr
    · exact (if_pos hb).trans (ite_self r).symm
    · exact (if_pos (lt_trans hr hb)).trans (if_pos hr).symm

/-- What is not before `x` is the larger one beside all that is not behind
    `x`. -/
theorem max_eq_max (hl : l = x ∨ x < l) (ha : a = x ∨ a < x) :
    Scalar.max a l = Scalar.max x l := by
  rcases ha with rfl | ha
  · rfl
  · rcases hl with rfl | hl
    · exact (if_pos ha).trans (ite_self l).symm
    · exact (if_pos (lt_trans ha hl)).trans (if_pos hl).symm

end LawfulScalar

namespace Curve

variable {α : Type} [Scalar α] [LawfulScalar α] {c : Curve α} {x₀ x₁ : α}

/-- Two positions may be exchanged. -/
theorem trend_swap (h : x₁ < x₀) (extrapolate : Bool) :
    c.trend x₀ x₁ extrapolate = c.trend x₁ x₀ extrapolate := by
  rw [trend, trend, if_pos h, if_neg (LawfulScalar.not_lt_of_lt h),
    LawfulScalar.beq_comm]

/-- Between two positions in order, in the range or with the continuations,
    the pieces are put together. -/
theorem trend_of_lt (h : x₀ < x₁) {extrapolate : Bool}
    (admitted : extrapolate = true
      ∨ c.covers x₀ = true ∧ c.covers x₁ = true) :
    c.trend x₀ x₁ extrapolate
      = .ok (Monotonicity.reduce .constant (c.pieceTrends x₀ x₁)) := by
  have hne : ¬ (x₀ == x₁) = true := fun heq =>
    (LawfulScalar.beq_iff.mp heq).2.2.1 h
  have hcond : (extrapolate || (decide (c.xMin ≤ x₀)
      && decide (x₁ ≤ c.xMax))) = true := by
    simp only [covers, Bool.and_eq_true] at admitted
    rw [Bool.or_eq_true, Bool.and_eq_true]
    rcases admitted with hall | ⟨⟨hmin, -⟩, -, hmax⟩
    · exact Or.inl hall
    · exact Or.inr ⟨hmin, hmax⟩
  rw [trend, if_neg hne, if_neg (LawfulScalar.not_lt_of_lt h)]
  exact if_pos hcond

namespace Sorted

variable (sorted : c.Sorted) {lo hi : α}

include sorted

/-- **A PART OF A SEGMENT** is between two positions if the segment begins
    before the second one and ends behind the first one. -/
theorem hasPart_iff (i : Fin (c.inner + 1)) :
    Scalar.max lo (c.segment i).left.x < Scalar.min hi (c.segment i).right.x
      ↔ lo < hi ∧ lo < (c.segment i).right.x ∧ (c.segment i).left.x < hi := by
  have hw : (c.segment i).left.x < (c.segment i).right.x :=
    sorted i.castSucc i.succ i.castSucc_lt_succ
  obtain ⟨hl, hr⟩ := LawfulScalar.defined_of_lt hw
  rw [LawfulScalar.max_lt_iff hl, LawfulScalar.lt_min_iff hr,
    LawfulScalar.lt_min_iff hr, and_iff_left hw, and_assoc]

/-- **ALL SEGMENTS** with a part between two positions are visited. -/
theorem partTrends_eq (lo hi : α) :
    (if lo < hi then (c.segmentsBetween lo hi).filterMap (c.partTrend? lo hi)
      else [])
      = (List.finRange (c.inner + 1)).filterMap (c.partTrend? lo hi) := by
  -- what is not visited has no part there
  have hskipped : ∀ i, ¬ (lo < hi ∧ i ∈ c.segmentsBetween lo hi) →
      c.partTrend? lo hi i = none := by
    intro i hi'
    refine if_neg fun hpart => hi' ?_
    obtain ⟨hlt, hright, hleft⟩ := (sorted.hasPart_iff i).mp hpart
    refine ⟨hlt, c.mem_segmentsBetween.mpr ⟨?_, ?_⟩⟩
    · exact sorted.index_le (c.segmentIndex_bracket lo).1 (Or.inr hright)
    · exact sorted.index_le (Or.inr (LawfulScalar.not_lt_of_lt hleft))
        (c.segmentIndex_bracket hi).2
  split_ifs with hlt
  · rw [segmentsBetween, List.filterMap_filter]
    refine List.filterMap_congr fun i _ => ?_
    split_ifs with hbetween
    · rfl
    · refine (hskipped i fun h => hbetween ?_).symm
      exact (List.mem_filter.mp h.2).2
  · refine (List.filterMap_eq_nil_iff.mpr fun i _ => ?_).symm
    exact hskipped i fun h => hlt h.1

end Sorted

end Curve

end PiecewiseCubic
