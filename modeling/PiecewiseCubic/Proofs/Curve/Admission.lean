import PiecewiseCubic.Proofs.Curve.Sampling

/-! # Which positions are admitted

    A position alone is admitted if it lies in the range.  Many positions are
    admitted if none of them lies outside of it.  An undefined position does
    neither, since no comparison holds of it: alone it is refused, and among
    others it passes and is answered by an undefined number.  So both ways to
    ask admit the same defined positions, and differ on the undefined ones
    only. -/

namespace PiecewiseCubic

open Scalar

namespace Segment

variable {α : Type} [Scalar α] [AbsorbingUndefined α]

/-- A segment has nothing defined at an undefined position. -/
theorem not_defined_eval (s : Segment α) (order : Order) {x : α}
    (hx : ¬ Defined x) : ¬ Defined (s.eval order x) := by
  have ht : ¬ Defined ((x - s.left.x) / s.width) :=
    AbsorbingUndefined.not_defined_div _
      (AbsorbingUndefined.not_defined_sub _ hx)
  -- each weight of the left value has the fraction in its first part
  have hw : ¬ Defined
      (weights ((x - s.left.x) / s.width) order).leftValue := by
    cases order <;>
      apply_rules [AbsorbingUndefined.not_defined_add,
        AbsorbingUndefined.not_defined_sub,
        AbsorbingUndefined.not_defined_mul_right]
  cases order with
  | value =>
      apply_rules [AbsorbingUndefined.not_defined_add,
        AbsorbingUndefined.not_defined_mul]
  | first | second | third =>
      refine AbsorbingUndefined.not_defined_div _ ?_
      apply_rules [AbsorbingUndefined.not_defined_add,
        AbsorbingUndefined.not_defined_mul]

end Segment

namespace Curve

section Guards

variable {α : Type} [Scalar α] {c : Curve α}

/-- **ONE POSITION** is answered if it lies in the range, and refused
    otherwise. -/
theorem eval_false_cases (c : Curve α) (order : Order) (x : α) :
    (c.covers x = true ∧ c.eval order false x = .ok (c.continued order x))
      ∨ c.covers x = false
        ∧ c.eval order false x = .error .outsideRange := by
  rw [eval, Bool.false_or]
  cases c.covers x with
  | true => exact Or.inl ⟨rfl, if_pos rfl⟩
  | false => exact Or.inr ⟨rfl, if_neg Bool.false_ne_true⟩

theorem eval_false_ok_iff {order : Order} {x : α} :
    (∃ y, c.eval order false x = .ok y) ↔ c.covers x = true := by
  obtain ⟨hc, hx⟩ | ⟨hc, hx⟩ := c.eval_false_cases order x
  · exact iff_of_true ⟨_, hx⟩ hc
  · rw [hx, hc]
    simp

theorem eval_false_error_iff {order : Order} {x : α} :
    c.eval order false x = .error .outsideRange ↔ c.covers x = false := by
  obtain ⟨hc, hx⟩ | ⟨hc, hx⟩ := c.eval_false_cases order x
  · rw [hx, hc]
    simp
  · exact iff_of_true hx hc

variable [LawfulScalar α]

/-- **MANY POSITIONS** are admitted if the defined ones lie in the range. -/
theorem Sorted.admits_false_iff (sorted : c.Sorted) {xs : List α} :
    c.admits false xs = true ↔ ∀ x ∈ xs, Defined x → c.covers x = true := by
  rw [admits, Bool.false_or, Bool.not_eq_true', Bool.or_eq_false_iff,
    List.any_eq_false, List.any_eq_false]
  simp only [decide_eq_true_eq]
  constructor
  · rintro ⟨hmin, hmax⟩ x hx hdefined
    exact sorted.covers_iff_not_lt.mpr ⟨hdefined, hmin x hx, hmax x hx⟩
  · intro h
    refine ⟨fun x hx hlt => ?_, fun x hx hlt => ?_⟩
    · have hcovers := h x hx (LawfulScalar.defined_of_lt hlt).1
      exact (sorted.covers_iff_not_lt.mp hcovers).2.1 hlt
    · have hcovers := h x hx (LawfulScalar.defined_of_lt hlt).2
      exact (sorted.covers_iff_not_lt.mp hcovers).2.2 hlt

/-- Among others an undefined position is answered by an undefined number. -/
theorem not_defined_sampleAt [AbsorbingUndefined α] (c : Curve α) {x : α}
    (hx : ¬ Defined x) (order : Order) (count : ℕ) :
    ¬ Defined (c.sampleAt order x count) := by
  have hmax : ¬ c.xMax < x :=
    fun hlt => hx (LawfulScalar.defined_of_lt hlt).2
  have hmin : ¬ x < c.xMin :=
    fun hlt => hx (LawfulScalar.defined_of_lt hlt).1
  have hconfine : c.confine x = x := by
    rw [Defined, Bool.not_eq_false] at hx
    simp [confine, hx]
  rw [sampleAt, if_neg hmax, if_neg hmin, hconfine]
  exact Segment.not_defined_eval _ order hx

end Guards

/-- **WHO IS ADMITTED**: a curve with sorted knots answers a position alone if
    it lies in the range and refuses it otherwise, undefined ones included.
    Many positions are answered if those of them that are defined lie in the
    range, each by the number that it is answered alone, and the undefined ones
    by an undefined number.  They are refused if a defined one does not. -/
theorem sample_admits_undefined {α : Type} [Scalar α] [LawfulScalar α]
    [AbsorbingUndefined α] (c : Curve α) (sorted : c.Sorted) (order : Order)
    (positions : Tensor α) :
    (∀ x, ((∃ y, c.eval order false x = .ok y) ↔ c.covers x = true)
        ∧ (c.eval order false x = .error .outsideRange
          ↔ c.covers x = false))
      ∧ ((∀ x ∈ positions.entries, Defined x → c.covers x = true) →
        ∃ answers, c.sample order false positions = .ok answers
          ∧ List.Forall₂
            (fun x answer =>
              (Defined x → ∃ y, c.eval order false x = .ok y
                ∧ Same answer y)
                ∧ (¬ Defined x → c.covers x = false ∧ ¬ Defined answer))
            positions.entries answers.entries)
      ∧ ((∃ x ∈ positions.entries, Defined x ∧ c.covers x = false) →
        c.sample order false positions = .error .outsideRange) := by
  refine ⟨fun x => ⟨eval_false_ok_iff, eval_false_error_iff⟩, fun h => ?_,
    fun ⟨x, hx, hdefined, hout⟩ => ?_⟩
  · refine ⟨_, if_pos (sorted.admits_false_iff.mpr h), ?_⟩
    refine forall₂_zipWith (sorted.forall₂_counts positions.entries) ?_
    intro x hx count hcount
    refine ⟨fun hdefined => ?_, fun hundefined => ⟨?_, ?_⟩⟩
    · exact ⟨_, if_pos (h x hx hdefined),
        sorted.same_sampleAt hdefined hcount order⟩
    · rw [← Bool.not_eq_true]
      exact fun hc => hundefined (sorted.covers_iff_not_lt.mp hc).1
    · exact c.not_defined_sampleAt hundefined order count
  · refine if_neg fun hadmits => ?_
    have hcovers := sorted.admits_false_iff.mp hadmits x hx hdefined
    rw [hout] at hcovers
    exact absurd hcovers Bool.false_ne_true

/-- An undefined double is refused alone and admitted beside a position in the
    range; beside an infinite one it is refused as well. -/
theorem sample_admits_undefined_bent :
    ∃ answers : Tensor Float, (bent : Curve Float).Sorted
      ∧ (bent : Curve Float).eval .value false missing = .error .outsideRange
      ∧ (bent : Curve Float).sample .value false ⟨[2], [missing, 0.5]⟩
        = .ok answers
      ∧ (bent : Curve Float).sample .value false ⟨[2], [missing, 1 / 0]⟩
        = .error .outsideRange := by
  have sorted : (bent : Curve Float).Sorted := by decide +kernel
  obtain ⟨halone, hanswered, -⟩ := sample_admits_undefined bent sorted .value
    ⟨[2], [missing, 0.5]⟩
  obtain ⟨-, -, hrefused⟩ := sample_admits_undefined bent sorted .value
    ⟨[2], [missing, 1 / 0]⟩
  obtain ⟨answers, hanswers, -⟩ := hanswered (by decide +kernel)
  exact ⟨answers, sorted, (halone missing).2.mpr (by decide +kernel), hanswers,
    hrefused (by decide +kernel)⟩

end Curve

end PiecewiseCubic
