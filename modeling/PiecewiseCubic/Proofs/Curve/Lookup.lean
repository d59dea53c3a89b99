import PiecewiseCubic.Proofs.Curve.Hermite
import PiecewiseCubic.Proofs.Lawful
import PiecewiseCubic.Curve.Evaluate

/-! # Positions and segments

    The halving keeps its two knots around the position, so it ends with two
    neighbours around it.  On ascending knots there is only one such pair,
    and a curve that is asked at a position between two neighbouring knots
    answers what their segment does, the shared knots included. -/

namespace PiecewiseCubic.Curve

section Bracket

variable {α : Type} [Scalar α]

/-- **THE BRACKET**: if the position is not before the lower of two knots and
    before the upper one, or these are the ends, the same holds of the two
    neighbours that the halving ends with. -/
theorem bisect_bracket (c : Curve α) (x : α) (low high : ℕ) (lt : low < high)
    (le : high ≤ c.inner + 1)
    (hlow : low = 0 ∨ ¬ x < (c.knots[low]).x)
    (hhigh : high = c.inner + 1 ∨ x < (c.knots[high]).x) :
    ((c.bisect x low high lt le).val = 0
        ∨ ¬ x < (c.segment (c.bisect x low high lt le)).left.x)
      ∧ ((c.bisect x low high lt le).val = c.inner
        ∨ x < (c.segment (c.bisect x low high lt le)).right.x) := by
  fun_induction bisect c x low high lt le with
  | case1 low high lt le h mid hx ih => exact ih hlow (Or.inr hx)
  | case2 low high lt le h mid hx ih => exact ih (Or.inr hx) hhigh
  | case3 low high lt le h =>
      obtain rfl : high = low + 1 := by omega
      refine ⟨hlow, hhigh.imp (fun e => ?_) id⟩
      show low = c.inner
      omega

/-- The segment of a position begins before it, or at the first knot, and ends
    behind it, or at the last knot. -/
theorem segmentIndex_bracket (c : Curve α) (x : α) :
    ((c.segmentIndex x).val = 0
        ∨ ¬ x < (c.segment (c.segmentIndex x)).left.x)
      ∧ ((c.segmentIndex x).val = c.inner
        ∨ x < (c.segment (c.segmentIndex x)).right.x) :=
  c.bisect_bracket x 0 (c.inner + 1) _ _ (Or.inl rfl) (Or.inl rfl)

/-- Each knot is before all knots behind it. -/
def Sorted (c : Curve α) : Prop :=
  ∀ i j : Fin (c.inner + 2), i < j → (c.knots.get i).x < (c.knots.get j).x

instance (c : Curve α) : Decidable c.Sorted :=
  inferInstanceAs (Decidable (∀ i j : Fin (c.inner + 2), i < j →
    (c.knots.get i).x < (c.knots.get j).x))

/-- What holds of each entry of a list and the entries behind it. -/
theorem rel_get_of_pairwise {β : Type} {n : ℕ} {R : β → β → Prop}
    {v : Vector β n} (h : v.toList.Pairwise R) {i j : Fin n} (hij : i < j) :
    R (v.get i) (v.get j) := by
  rw [List.pairwise_iff_getElem] at h
  have hi : i.val < v.toList.length := by simp
  have hj : j.val < v.toList.length := by simp
  exact h i.val j.val hi hj hij

theorem sorted_of_pairwise {c : Curve α}
    (h : c.knots.toList.Pairwise fun k l => k.x < l.x) : c.Sorted :=
  fun _ _ hij => rel_get_of_pairwise h hij

/-- A segment that begins before a position, or at the first knot, is not
    behind one that ends behind the position, or at the last knot. -/
theorem Sorted.index_le [LawfulScalar α] {c : Curve α} (sorted : c.Sorted)
    {x : α} {i j : Fin (c.inner + 1)}
    (hi : i.val = 0 ∨ ¬ x < (c.segment i).left.x)
    (hj : j.val = c.inner ∨ x < (c.segment j).right.x) : i ≤ j := by
  by_contra h
  have hlt : j.val + 1 ≤ i.val := not_le.mp h
  have hx : x < (c.segment j).right.x := hj.resolve_left (by omega)
  refine hi.resolve_left (by omega) ?_
  rcases hlt.lt_or_eq with hknots | hknot
  · have hbetween : (c.segment j).right.x < (c.segment i).left.x :=
      sorted j.succ i.castSucc hknots
    exact LawfulScalar.lt_trans hx hbetween
  · have hshared : (c.segment j).right = (c.segment i).left :=
      congrArg c.knots.get (Fin.ext hknot : j.succ = i.castSucc)
    exact hshared ▸ hx

end Bracket

/-- Each knot is before the next one. -/
def Ascending (c : Curve ℝ) : Prop :=
  ∀ i j : Fin (c.inner + 2), i < j → c.knots[i].x < c.knots[j].x

namespace Ascending

variable {c : Curve ℝ} (asc : c.Ascending)

include asc

theorem lt {i j : ℕ} (h : i < j) (hj : j < c.inner + 2) :
    c.knots[i].x < c.knots[j].x :=
  asc ⟨i, by omega⟩ ⟨j, hj⟩ h

theorem le {i j : ℕ} (h : i ≤ j) (hj : j < c.inner + 2) :
    c.knots[i].x ≤ c.knots[j].x := by
  rcases Nat.eq_or_lt_of_le h with rfl | hlt
  · exact le_refl _
  · exact (asc.lt hlt hj).le

theorem width_pos (i : Fin (c.inner + 1)) : 0 < (c.segment i).width :=
  sub_pos.mpr (asc.lt (Nat.lt_succ_self i.val) (by omega))

theorem width_ne_zero (i : Fin (c.inner + 1)) : (c.segment i).width ≠ 0 :=
  (asc.width_pos i).ne'

theorem sorted : c.Sorted := asc

/-- A segment that begins before a position is not behind that of the
    position. -/
theorem le_segmentIndex {x : ℝ} {i : Fin (c.inner + 1)}
    (h : i.val = 0 ∨ (c.segment i).left.x ≤ x) : i ≤ c.segmentIndex x :=
  asc.sorted.index_le (h.imp_right not_lt.mpr) (c.segmentIndex_bracket x).2

/-- A segment that ends behind a position is not before that of the
    position. -/
theorem segmentIndex_le {x : ℝ} {i : Fin (c.inner + 1)}
    (h : i.val = c.inner ∨ x < (c.segment i).right.x) :
    c.segmentIndex x ≤ i :=
  asc.sorted.index_le (c.segmentIndex_bracket x).1 h

/-- **ONE SEGMENT** begins before a position, or at the first knot, and ends
    behind it, or at the last knot. -/
theorem segmentIndex_eq {x : ℝ} {i : Fin (c.inner + 1)}
    (h₀ : i.val = 0 ∨ (c.segment i).left.x ≤ x)
    (h₁ : i.val = c.inner ∨ x < (c.segment i).right.x) :
    c.segmentIndex x = i :=
  le_antisymm (asc.segmentIndex_le h₁) (asc.le_segmentIndex h₀)

/-- A later position belongs to a later segment, or to the same one. -/
theorem segmentIndex_mono {x y : ℝ} (h : x ≤ y) :
    c.segmentIndex x ≤ c.segmentIndex y :=
  asc.le_segmentIndex
    ((c.segmentIndex_bracket x).1.imp_right fun hx => (not_lt.mp hx).trans h)

/-- A position in the range is on the segment that it belongs to. -/
theorem mem_segment {x : ℝ} (h₀ : c.xMin ≤ x) (h₁ : x ≤ c.xMax) :
    (c.segment (c.segmentIndex x)).left.x ≤ x
      ∧ x ≤ (c.segment (c.segmentIndex x)).right.x := by
  obtain ⟨hlow, hhigh⟩ := c.segmentIndex_bracket x
  constructor
  · rcases hlow with h | h
    · have hfirst : (c.segment (c.segmentIndex x)).left.x ≤ c.xMin :=
        asc.le h.le (by omega)
      exact hfirst.trans h₀
    · exact not_lt.mp h
  · rcases hhigh with h | h
    · have hlast : c.xMax ≤ (c.segment (c.segmentIndex x)).right.x :=
        asc.le (by omega) (by omega)
      exact h₁.trans hlast
    · exact h.le

/-- A segment lies in the range. -/
theorem segment_mem (i : Fin (c.inner + 1)) :
    c.xMin ≤ (c.segment i).left.x ∧ (c.segment i).right.x ≤ c.xMax :=
  ⟨asc.le (Nat.zero_le _) (by omega), asc.le (by omega) (by omega)⟩

theorem xMin_lt_xMax : c.xMin < c.xMax := asc.lt (Nat.zero_lt_succ _) (by omega)

end Ascending

/-! ## What a curve answers -/

namespace Sorted

variable {α : Type} [Scalar α] [LawfulScalar α] {c : Curve α} {x : α}
  (sorted : c.Sorted)

include sorted

omit [LawfulScalar α] in
theorem xMin_lt_xMax : c.xMin < c.xMax :=
  sorted 0 (Fin.last (c.inner + 1)) (Fin.last_pos)

/-- The range holds the defined positions that are not outside of it. -/
theorem covers_iff_not_lt :
    c.covers x = true
      ↔ Scalar.Defined x ∧ ¬ x < c.xMin ∧ ¬ c.xMax < x := by
  obtain ⟨hmin, hmax⟩ := LawfulScalar.defined_of_lt sorted.xMin_lt_xMax
  rw [covers, Bool.and_eq_true, decide_eq_true_eq, decide_eq_true_eq,
    LawfulScalar.le_iff, LawfulScalar.le_iff]
  constructor
  · rintro ⟨⟨-, hx, hlow⟩, -, -, hhigh⟩
    exact ⟨hx, hlow, hhigh⟩
  · rintro ⟨hx, hlow, hhigh⟩
    exact ⟨⟨hmin, hx, hlow⟩, hx, hmax, hhigh⟩

/-- Before the first knot a curve is its straight continuation. -/
theorem continued_of_lt_xMin (h : x < c.xMin) (order : Order) :
    c.continued order x = tail c.firstKnot c.leftSlope order x := by
  have hcovers : ¬ c.covers x = true :=
    fun hc => (sorted.covers_iff_not_lt.mp hc).2.1 h
  cases order with
  | value | first => rw [continued, if_pos h]
  | second | third => exact if_neg hcovers

/-- Behind the last knot a curve is its straight continuation. -/
theorem continued_of_xMax_lt (h : c.xMax < x) (order : Order) :
    c.continued order x = tail c.lastKnot c.rightSlope order x := by
  have hmin : ¬ x < c.xMin := LawfulScalar.not_lt_of_lt
    (LawfulScalar.lt_trans sorted.xMin_lt_xMax h)
  have hcovers : ¬ c.covers x = true :=
    fun hc => (sorted.covers_iff_not_lt.mp hc).2.2 h
  cases order with
  | value | first => rw [continued, if_neg hmin, if_pos h]
  | second | third => exact if_neg hcovers

/-- In its range a curve is what the segment of the position is. -/
theorem continued_of_covers (h : c.covers x = true) (order : Order) :
    c.continued order x = c.inside order x := by
  obtain ⟨-, hlow, hhigh⟩ := sorted.covers_iff_not_lt.mp h
  cases order with
  | value | first => rw [continued, if_neg hlow, if_neg hhigh]
  | second | third => exact if_pos h

end Sorted

theorem covers_iff (c : Curve ℝ) (x : ℝ) :
    c.covers x = true ↔ c.xMin ≤ x ∧ x ≤ c.xMax := by
  rw [covers, Bool.and_eq_true, decide_eq_true_eq, decide_eq_true_eq]

section Range

variable {c : Curve ℝ} {x₀ x₁ : ℝ} (h₀ : c.covers x₀ = true)
  (h₁ : c.covers x₁ = true)

include h₀ h₁

theorem xMin_le_min : c.xMin ≤ min x₀ x₁ :=
  le_min ((c.covers_iff x₀).mp h₀).1 ((c.covers_iff x₁).mp h₁).1

theorem max_le_xMax : max x₀ x₁ ≤ c.xMax :=
  max_le ((c.covers_iff x₀).mp h₀).2 ((c.covers_iff x₁).mp h₁).2

end Range

theorem continued_eq_inside {c : Curve ℝ} {x : ℝ} (h₀ : c.xMin ≤ x)
    (h₁ : x ≤ c.xMax) (order : Order) :
    c.continued order x = c.inside order x := by
  have hcovers : c.covers x = true := (c.covers_iff x).mpr ⟨h₀, h₁⟩
  cases order with
  | value | first =>
      rw [continued, if_neg (not_lt.mpr h₀), if_neg (not_lt.mpr h₁)]
  | second | third => rw [continued, if_pos hcovers]

/-- In the range a curve answers what the segment of the position does. -/
theorem eval_eq_inside {c : Curve ℝ} {x : ℝ} (h₀ : c.xMin ≤ x)
    (h₁ : x ≤ c.xMax) (order : Order) (extrapolate : Bool) :
    c.eval order extrapolate x = .ok (c.inside order x) := by
  have hcovers : c.covers x = true := (c.covers_iff x).mpr ⟨h₀, h₁⟩
  rw [eval, hcovers, Bool.or_true, if_pos rfl, continued_eq_inside h₀ h₁]

/-- With its continuations a curve answers everywhere. -/
theorem eval_true (c : Curve ℝ) (order : Order) (x : ℝ) :
    c.eval order true x = .ok (c.continued order x) := by
  rw [eval, Bool.true_or, if_pos rfl]

/-- Two neighbouring segments share a derivative at their knot. -/
def AgreesAtKnots (c : Curve ℝ) (order : Order) : Prop :=
  ∀ i j : Fin (c.inner + 1), i.val + 1 = j.val →
    (c.segment i).eval order (c.segment i).right.x
      = (c.segment j).eval order (c.segment j).left.x

namespace Ascending

variable {c : Curve ℝ} (asc : c.Ascending)

include asc

theorem agrees_value : c.AgreesAtKnots .value := by
  rintro i ⟨j, hj⟩ hij
  obtain rfl : j = i.val + 1 := hij.symm
  rw [Segment.eval_value_right _ (asc.width_ne_zero _),
    Segment.eval_value_left _ (asc.width_ne_zero _)]
  rfl

theorem agrees_first : c.AgreesAtKnots .first := by
  rintro i ⟨j, hj⟩ hij
  obtain rfl : j = i.val + 1 := hij.symm
  rw [Segment.eval_first_right _ (asc.width_ne_zero _),
    Segment.eval_first_left _ (asc.width_ne_zero _)]
  rfl

/-- **ON A SEGMENT**, its knots included, a curve is the segment as far as
    neighbours agree. -/
theorem inside_eq {order : Order} (agree : c.AgreesAtKnots order)
    {i : Fin (c.inner + 1)} {x : ℝ} (h₀ : (c.segment i).left.x ≤ x)
    (h₁ : x ≤ (c.segment i).right.x) :
    c.inside order x = (c.segment i).eval order x := by
  rw [inside]
  rcases h₁.lt_or_eq with hlt | rfl
  · rw [asc.segmentIndex_eq (Or.inr h₀) (Or.inr hlt)]
  · by_cases hi : i.val = c.inner
    · rw [asc.segmentIndex_eq (Or.inr h₀) (Or.inl hi)]
    · -- the knot belongs to the segment behind it
      have hj : i.val + 1 < c.inner + 1 := by omega
      have hindex : c.segmentIndex (c.segment i).right.x = ⟨i.val + 1, hj⟩ :=
        asc.segmentIndex_eq (Or.inr (le_refl _))
          (Or.inr (asc.lt (Nat.lt_succ_self _) (by omega)))
      rw [hindex]
      exact (agree i ⟨i.val + 1, hj⟩ rfl).symm

theorem inside_xMin (order : Order) :
    c.inside order c.xMin = (c.segment 0).eval order c.xMin := by
  have hindex : c.segmentIndex c.xMin = 0 :=
    asc.segmentIndex_eq (Or.inl rfl)
      (Or.inr (asc.lt Nat.zero_lt_one (by omega)))
  rw [inside, hindex]

theorem inside_xMax (order : Order) :
    c.inside order c.xMax = (c.segment (Fin.last _)).eval order c.xMax := by
  have hindex : c.segmentIndex c.xMax = Fin.last _ :=
    asc.segmentIndex_eq (Or.inr (asc.lt (Nat.lt_succ_self _) (by omega)).le)
      (Or.inl rfl)
  rw [inside, hindex]

theorem eval_xMin (order : Order) (extrapolate : Bool) :
    c.eval order extrapolate c.xMin
      = .ok ((c.segment 0).eval order (c.segment 0).left.x) := by
  rw [eval_eq_inside (le_refl _) asc.xMin_lt_xMax.le, asc.inside_xMin]
  rfl

theorem eval_xMax (order : Order) (extrapolate : Bool) :
    c.eval order extrapolate c.xMax
      = .ok ((c.segment (Fin.last _)).eval order
          (c.segment (Fin.last _)).right.x) := by
  rw [eval_eq_inside asc.xMin_lt_xMax.le (le_refl _), asc.inside_xMax]
  rfl

/-- **AT A KNOT** a curve has the value and the slope of the knot. -/
theorem inside_knot (i : Fin (c.inner + 2)) :
    c.inside .value (c.knots.get i).x = (c.knots.get i).y
      ∧ c.inside .first (c.knots.get i).x = (c.knots.get i).slope := by
  cases i using Fin.lastCases with
  | last =>
      have hw := asc.width_ne_zero (Fin.last c.inner)
      exact ⟨(asc.inside_xMax .value).trans (Segment.eval_value_right _ hw),
        (asc.inside_xMax .first).trans (Segment.eval_first_right _ hw)⟩
  | cast i =>
      have hw := asc.width_ne_zero i
      have hle : (c.segment i).left.x ≤ (c.segment i).right.x :=
        (asc.lt (Nat.lt_succ_self i.val) (by omega)).le
      exact ⟨(asc.inside_eq asc.agrees_value (le_refl _) hle).trans
          (Segment.eval_value_left _ hw),
        (asc.inside_eq asc.agrees_first (le_refl _) hle).trans
          (Segment.eval_first_left _ hw)⟩

/-- The continuation before the first knot has the slope of that knot. -/
theorem leftSlope_eq : c.leftSlope = c.firstKnot.slope :=
  (c.segment 0).eval_first_left (asc.width_ne_zero 0)

/-- The continuation behind the last knot has the slope of that knot. -/
theorem rightSlope_eq : c.rightSlope = c.lastKnot.slope :=
  (c.segment (Fin.last _)).eval_first_right (asc.width_ne_zero _)

end Ascending

end PiecewiseCubic.Curve
