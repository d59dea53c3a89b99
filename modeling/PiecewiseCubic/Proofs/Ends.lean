import PiecewiseCubic.Proofs.Cell
import PiecewiseCubic.Proofs.Curve.Knots
import PiecewiseCubic.Proofs.Session

/-! # Curves through two ends

    Six numbers make a curve with one segment.  If the first position is the
    one behind, positions and values are exchanged, so each value stays with
    the position that it was given with.  The slopes are not exchanged: the
    first one is that of the left end and the second one that of the right end
    wherever they were given.  They belong to the positions that they were
    given with only if these were in order, or if both slopes are the
    same. -/

namespace PiecewiseCubic

namespace Curve

/-- The full curve with two knots. -/
def spanned {α : Type} (k l : Knot α) : Curve α := ⟨.full, 0, #v[k, l]⟩

theorem ascending_spanned {k l : Knot ℝ} (h : k.x < l.x) :
    (spanned k l).Ascending := by
  refine sorted_of_pairwise ?_
  show [k, l].Pairwise _
  simpa using h

theorem eval_spanned {k l : Knot ℝ} (h : k.x < l.x) (extrapolate : Bool) :
    ((spanned k l).eval .value extrapolate k.x = .ok k.y
        ∧ (spanned k l).eval .first extrapolate k.x = .ok k.slope)
      ∧ (spanned k l).eval .value extrapolate l.x = .ok l.y
        ∧ (spanned k l).eval .first extrapolate l.x = .ok l.slope :=
  ⟨(ascending_spanned h).eval_knot (0 : Fin 2) extrapolate,
    (ascending_spanned h).eval_knot (1 : Fin 2) extrapolate⟩

variable {x₀ x₁ : ℝ}

theorem ofEnds_of_lt (h : x₀ < x₁) (y₀ y₁ m₀ m₁ : ℝ) :
    ofEnds x₀ x₁ y₀ y₁ m₀ m₁ = spanned ⟨x₀, y₀, m₀⟩ ⟨x₁, y₁, m₁⟩ := by
  rw [ofEnds, decide_eq_false h.not_gt]
  rfl

/-- Exchanged ends keep their values, but not their slopes. -/
theorem ofEnds_of_gt (h : x₁ < x₀) (y₀ y₁ m₀ m₁ : ℝ) :
    ofEnds x₀ x₁ y₀ y₁ m₀ m₁ = spanned ⟨x₁, y₁, m₀⟩ ⟨x₀, y₀, m₁⟩ := by
  rw [ofEnds, decide_eq_true h]
  rfl

/-- **BOTH ENDS**: a value is at its position, the first slope is at the left
    end and the second one at the right end. -/
theorem eval_ofEnds (h : x₀ ≠ x₁) (y₀ y₁ m₀ m₁ : ℝ) (extrapolate : Bool) :
    (ofEnds x₀ x₁ y₀ y₁ m₀ m₁).eval .value extrapolate x₀ = .ok y₀
      ∧ (ofEnds x₀ x₁ y₀ y₁ m₀ m₁).eval .value extrapolate x₁ = .ok y₁
      ∧ (ofEnds x₀ x₁ y₀ y₁ m₀ m₁).eval .first extrapolate (min x₀ x₁)
        = .ok m₀
      ∧ (ofEnds x₀ x₁ y₀ y₁ m₀ m₁).eval .first extrapolate (max x₀ x₁)
        = .ok m₁ := by
  rcases h.lt_or_gt with hlt | hgt
  · rw [ofEnds_of_lt hlt, min_eq_left hlt.le, max_eq_right hlt.le]
    have hends := @eval_spanned ⟨x₀, y₀, m₀⟩ ⟨x₁, y₁, m₁⟩ hlt extrapolate
    obtain ⟨⟨hvalue, hslope⟩, hvalue', hslope'⟩ := hends
    exact ⟨hvalue, hvalue', hslope, hslope'⟩
  · rw [ofEnds_of_gt hgt, min_eq_right hgt.le, max_eq_left hgt.le]
    have hends := @eval_spanned ⟨x₁, y₁, m₀⟩ ⟨x₀, y₀, m₁⟩ hgt extrapolate
    obtain ⟨⟨hvalue, hslope⟩, hvalue', hslope'⟩ := hends
    exact ⟨hvalue', hvalue, hslope, hslope'⟩

/-- **THE SLOPES STAY** with the positions that they were given with if these
    are in order, or if there is one slope only. -/
theorem slopes_ofEnds_iff (h : x₀ ≠ x₁) (y₀ y₁ m₀ m₁ : ℝ)
    (extrapolate : Bool) :
    (ofEnds x₀ x₁ y₀ y₁ m₀ m₁).eval .first extrapolate x₀ = .ok m₀
        ∧ (ofEnds x₀ x₁ y₀ y₁ m₀ m₁).eval .first extrapolate x₁ = .ok m₁
      ↔ x₀ < x₁ ∨ m₀ = m₁ := by
  obtain ⟨-, -, hleft, hright⟩ := eval_ofEnds h y₀ y₁ m₀ m₁ extrapolate
  rcases h.lt_or_gt with hlt | hgt
  · rw [min_eq_left hlt.le] at hleft
    rw [max_eq_right hlt.le] at hright
    exact iff_of_true ⟨hleft, hright⟩ (Or.inl hlt)
  · rw [min_eq_right hgt.le] at hleft
    rw [max_eq_left hgt.le] at hright
    rw [hleft, hright, Except.ok.injEq, Except.ok.injEq,
      or_iff_right hgt.not_gt]
    exact ⟨fun heq => heq.2, fun heq => ⟨heq.symm, heq⟩⟩

end Curve

namespace Session

/-- **SIX NUMBERS** are read as they are, and make a curve in every session. -/
theorem step_setEnds_numbers {α : Type} [Scalar α] (held : Option (Curve α))
    (x₀ x₁ y₀ y₁ m₀ m₁ : α) :
    step held (.setEnds (Cell.ofNumbers [x₀, x₁, y₀, y₁, m₀, m₁]))
      = (some (Curve.ofEnds x₀ x₁ y₀ y₁ m₀ m₁),
        .ok (.made (some (Curve.ofEnds x₀ x₁ y₀ y₁ m₀ m₁)) [])) := by
  have hfit : fitEnds (Cell.ofNumbers [x₀, x₁, y₀, y₁, m₀, m₁])
      = .ok ⟨some (Curve.ofEnds x₀ x₁ y₀ y₁ m₀ m₁), []⟩ := by
    have hitems : (Cell.ofNumbers [x₀, x₁, y₀, y₁, m₀, m₁]).items?
        = some [.number x₀, .number x₁, .number y₀, .number y₁, .number m₀,
          .number m₁] := rfl
    simp only [fitEnds, hitems, isBehind, both_number, bind, Except.bind]
    rfl
  rw [step, make?, hfit]

/-- **SET THROUGH TWO ENDS**: six numbers with two different positions make a
    curve, whatever the session held.  It has each value at the position that
    it was given with.  The first slope is that of the left end and the second
    one that of the right end, so they are at the positions that they were
    given with just if these were in order, or if both slopes are one. -/
theorem setEnds_keeps_slopes_iff (held : Option (Curve ℝ)) {x₀ x₁ : ℝ}
    (h : x₀ ≠ x₁) (y₀ y₁ m₀ m₁ : ℝ) :
    ∃ c : Curve ℝ,
      step held (.setEnds (Cell.ofNumbers [x₀, x₁, y₀, y₁, m₀, m₁]))
          = (some c, .ok (.made (some c) []))
        ∧ ∀ extrapolate : Bool,
          (c.eval .value extrapolate x₀ = .ok y₀
              ∧ c.eval .value extrapolate x₁ = .ok y₁
              ∧ c.eval .first extrapolate (min x₀ x₁) = .ok m₀
              ∧ c.eval .first extrapolate (max x₀ x₁) = .ok m₁)
            ∧ (c.eval .first extrapolate x₀ = .ok m₀
                ∧ c.eval .first extrapolate x₁ = .ok m₁
              ↔ x₀ < x₁ ∨ m₀ = m₁) := by
  refine ⟨_, step_setEnds_numbers held x₀ x₁ y₀ y₁ m₀ m₁, ?_⟩
  intro extrapolate
  exact ⟨Curve.eval_ofEnds h y₀ y₁ m₀ m₁ extrapolate,
    Curve.slopes_ofEnds_iff h y₀ y₁ m₀ m₁ extrapolate⟩

/-- One and zero are not in order, so the slope two that was given with one is
    found at zero, and the slope five that was given with zero at one. -/
theorem setEnds_exchanges_slopes :
    ∃ c : Curve ℝ,
      (1 : ℝ) ≠ 0
        ∧ step none (.setEnds (Cell.ofNumbers [1, 0, 0, 1, 2, 5]))
          = (some c, .ok (.made (some c) []))
        ∧ c.eval .first false 0 = .ok 2 ∧ c.eval .first false 1 = .ok 5
        ∧ ¬ (c.eval .first false 1 = .ok 2
          ∧ c.eval .first false 0 = .ok 5) := by
  obtain ⟨c, hstep, h⟩ := setEnds_keeps_slopes_iff none one_ne_zero 0 1 2 5
  obtain ⟨⟨-, -, hleft, hright⟩, hiff⟩ := h false
  rw [min_eq_right zero_le_one] at hleft
  rw [max_eq_left zero_le_one] at hright
  refine ⟨c, one_ne_zero, hstep, hleft, hright, ?_⟩
  rw [hiff]
  norm_num

end Session

end PiecewiseCubic
