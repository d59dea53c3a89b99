import PiecewiseCubic.Proofs.Curve.Fit

/-! # Smooth curves

    The moments of a smooth family are the second derivatives of its curve:
    each segment has the moments of its two knots as curvatures at its ends,
    so neighbours agree on them.  What the families ask for at the ends of
    the range, the curve has there. -/

namespace PiecewiseCubic.Curve

open Moments

/-- Neighbouring segments share value, slope and curvature at their knot. -/
structure Smooth (c : Curve ℝ) : Prop where
  value : c.AgreesAtKnots .value
  first : c.AgreesAtKnots .first
  second : c.AgreesAtKnots .second

/-- Each segment has the moments of its two knots as curvatures there. -/
def HasMoments (c : Curve ℝ) (u : Vector ℝ (c.inner + 2)) : Prop :=
  ∀ i : Fin (c.inner + 1),
    (c.segment i).eval .second (c.segment i).left.x = u.get i.castSucc
      ∧ (c.segment i).eval .second (c.segment i).right.x = u.get i.succ

namespace HasMoments

variable {c : Curve ℝ} {u : Vector ℝ (c.inner + 2)} (h : c.HasMoments u)

include h

theorem agrees_second : c.AgreesAtKnots .second := by
  rintro i ⟨j, hj⟩ hij
  obtain rfl : j = i.val + 1 := hij.symm
  exact (h i).2.trans (h ⟨i.val + 1, hj⟩).1.symm

theorem smooth (asc : c.Ascending) : c.Smooth :=
  ⟨asc.agrees_value, asc.agrees_first, h.agrees_second⟩

theorem eval_xMin (asc : c.Ascending) (extrapolate : Bool) :
    c.eval .second extrapolate c.xMin = .ok (u.get 0) := by
  rw [asc.eval_xMin, (h 0).1]
  rfl

theorem eval_xMax (asc : c.Ascending) (extrapolate : Bool) :
    c.eval .second extrapolate c.xMax = .ok (u.get (Fin.last _)) := by
  rw [asc.eval_xMax, (h (Fin.last _)).2]
  rfl

end HasMoments

/-! ## Curves with the slopes of their moments -/

section OfMoments

variable {m : ℕ} {p : Vector (Point ℝ) (m + 2)} {u : Vector ℝ (m + 2)}
  (family : Family)

/-- A curve has moments as its curvatures if each segment has the slopes that
    they ask for. -/
theorem hasMoments_iff (asc : Moments.Ascending p) {s : Vector ℝ (m + 2)} :
    (ofSlopes family p s).HasMoments u ↔ ∀ k : Fin (m + 1),
      s.get k.castSucc = startSlope (widths p) (secants p) u k
        ∧ s.get k.succ = endSlope (widths p) (secants p) u k := by
  refine forall_congr' fun (k : Fin (m + 1)) => ?_
  have hwidth : ((ofSlopes family p s).segment k).width = (widths p).get k :=
    width_ofSlopes family s k
  have hne : ((ofSlopes family p s).segment k).width ≠ 0 :=
    (hwidth ▸ asc.widths_pos k).ne'
  refine (Segment.curvatures_iff _ hne).trans ?_
  rw [hwidth, secant_ofSlopes, segment_ofSlopes, startSlope_eq, endSlope_eq]
  exact Iff.rfl

/-- **THE CURVATURES** of a curve whose slopes come from moments are these
    moments, on both sides of each knot. -/
theorem hasMoments_ofSlopes (asc : Moments.Ascending p)
    (joined : Joined p u) :
    (ofSlopes family p (Moments.slopes p u)).HasMoments u :=
  (hasMoments_iff family asc).mpr fun k =>
    ⟨get_slopes_castSucc p u k, joined.get_slopes_succ k⟩

/-- At the first knot the curve has the slope that the moments ask for. -/
theorem eval_first_xMin_ofSlopes (asc : Moments.Ascending p)
    (extrapolate : Bool) :
    (ofSlopes family p (Moments.slopes p u)).eval .first extrapolate
        (ofSlopes family p (Moments.slopes p u)).xMin
      = .ok (startSlope (widths p) (secants p) u 0) := by
  have hasc := ascending_ofSlopes family (Moments.slopes p u) asc
  rw [hasc.eval_xMin, Segment.eval_first_left _ (hasc.width_ne_zero 0),
    ← get_slopes_castSucc p u 0]
  exact congrArg (fun s : Segment ℝ => Except.ok s.left.slope)
    (segment_ofSlopes family p _ 0)

/-- At the last knot the curve has the slope that the moments ask for. -/
theorem eval_first_xMax_ofSlopes (asc : Moments.Ascending p)
    (extrapolate : Bool) :
    (ofSlopes family p (Moments.slopes p u)).eval .first extrapolate
        (ofSlopes family p (Moments.slopes p u)).xMax
      = .ok (endSlope (widths p) (secants p) u (Fin.last m)) := by
  have hasc := ascending_ofSlopes family (Moments.slopes p u) asc
  rw [hasc.eval_xMax, Segment.eval_first_right _ (hasc.width_ne_zero _),
    ← get_slopes_last p u]
  exact congrArg (fun s : Segment ℝ => Except.ok s.right.slope)
    (segment_ofSlopes family p _ (Fin.last m))

end OfMoments

/-! ## The smooth families -/

section Families

variable {m : ℕ} {p : Vector (Point ℝ) (m + 2)} {u : Vector ℝ (m + 2)}
  {b : Boundary ℝ} {sort : Bool} {points : List (Point ℝ)}

/-- A family whose slopes come from moments fits a smooth curve through the
    arranged points. -/
theorem fit_of_moments (hfit : fit b sort points = through b p)
    (hp : p.toList = arrange sort points) (asc : Moments.Ascending p)
    (joined : Joined p u) (hslopes : slopes b p = .ok (Moments.slopes p u)) :
    (fit b sort points).result
        = .ok (ofSlopes b.family p (Moments.slopes p u))
      ∧ (ofSlopes b.family p (Moments.slopes p u)).points.toList
        = arrange sort points
      ∧ (ofSlopes b.family p (Moments.slopes p u)).HasMoments u
      ∧ (ofSlopes b.family p (Moments.slopes p u)).Smooth := by
  have hmoments := hasMoments_ofSlopes b.family asc joined
  obtain ⟨hresult, hpoints⟩ := fit_of_slopes hfit hp hslopes
  exact ⟨hresult, hpoints, hmoments,
    hmoments.smooth (ascending_ofSlopes _ _ asc)⟩

/-- **NATURAL AND FULL CURVES ARE SMOOTH**: through two points or more in
    order there is a natural curve and, for any two end slopes, a full one.
    Their curvatures at the knots solve the equations of the family, the
    natural curve has none at its ends, and the full one has the given slopes
    there. -/
theorem fit_natural_full_smooth (sort : Bool) (points : List (Point ℝ))
    (two : 2 ≤ points.length) (order : InOrder sort points) :
    (∃ (c : Curve ℝ) (u : Vector ℝ (c.inner + 2)),
      (fit .natural sort points).result = .ok c
        ∧ c.points.toList = arrange sort points
        ∧ moments (naturalMatrix c.points) (naturalBends c.points) = .ok u
        ∧ c.HasMoments u ∧ c.Smooth
        ∧ ∀ extrapolate, c.eval .second extrapolate c.xMin = .ok 0
          ∧ c.eval .second extrapolate c.xMax = .ok 0)
      ∧ ∀ m₀ m₁ : ℝ, ∃ (c : Curve ℝ) (u : Vector ℝ (c.inner + 2)),
        (fit (.full m₀ m₁) sort points).result = .ok c
          ∧ c.points.toList = arrange sort points
          ∧ moments (fullMatrix c.points) (fullBends c.points m₀ m₁) = .ok u
          ∧ c.HasMoments u ∧ c.Smooth
          ∧ ∀ extrapolate, c.eval .first extrapolate c.xMin = .ok m₀
            ∧ c.eval .first extrapolate c.xMax = .ok m₁ := by
  obtain ⟨m, p, -, hp, asc, hfit⟩ := order.exists_through two
  constructor
  · obtain ⟨u, hu, joined, hfirst, hlast⟩ := exists_natural_moments asc
    have hslopes : slopes .natural p = .ok (Moments.slopes p u) := by
      rw [slopes, hu]
      rfl
    obtain ⟨hresult, hpoints, hmoments, hsmooth⟩ :=
      fit_of_moments (hfit _) hp asc joined hslopes
    refine ⟨_, u, hresult, hpoints, ?_, hmoments, hsmooth, fun e => ⟨?_, ?_⟩⟩
    · exact (congrArg (fun q => moments (naturalMatrix q) (naturalBends q))
        (points_ofSlopes _ p _)).trans hu
    · rw [hmoments.eval_xMin (ascending_ofSlopes _ _ asc)]
      exact congrArg Except.ok hfirst
    · rw [hmoments.eval_xMax (ascending_ofSlopes _ _ asc)]
      exact congrArg Except.ok hlast
  · intro m₀ m₁
    obtain ⟨u, hu, joined, hfirst, hlast⟩ := exists_full_moments asc m₀ m₁
    have hslopes : slopes (.full m₀ m₁) p = .ok (Moments.slopes p u) := by
      rw [slopes, hu]
      rfl
    obtain ⟨hresult, hpoints, hmoments, hsmooth⟩ :=
      fit_of_moments (hfit _) hp asc joined hslopes
    refine ⟨_, u, hresult, hpoints, ?_, hmoments, hsmooth, fun e => ⟨?_, ?_⟩⟩
    · exact (congrArg (fun q => moments (fullMatrix q) (fullBends q m₀ m₁))
        (points_ofSlopes _ p _)).trans hu
    · rw [eval_first_xMin_ofSlopes _ asc, hfirst]
    · rw [eval_first_xMax_ofSlopes _ asc, hlast]

/-- Three uneven points, given from right to left. -/
theorem fit_natural_full_smooth_hill :
    2 ≤ [(⟨3, 0⟩ : Point ℝ), ⟨1, 1⟩, ⟨0, 0⟩].length
      ∧ InOrder false [⟨3, 0⟩, ⟨1, 1⟩, ⟨0, 0⟩]
      ∧ ∃ c, (fit .natural false [⟨3, 0⟩, ⟨1, 1⟩, ⟨0, 0⟩]).result = .ok c
        ∧ c.Smooth ∧ c.eval .second false c.xMin = .ok 0 := by
  have order : InOrder false [⟨3, 0⟩, ⟨1, 1⟩, ⟨0, 0⟩] := by
    have harrange : arrange false [(⟨3, 0⟩ : Point ℝ), ⟨1, 1⟩, ⟨0, 0⟩]
        = [⟨0, 0⟩, ⟨1, 1⟩, ⟨3, 0⟩] := if_pos three_pos
    rw [InOrder, harrange]
    norm_num
  have two : 2 ≤ [(⟨3, 0⟩ : Point ℝ), ⟨1, 1⟩, ⟨0, 0⟩].length := by decide
  obtain ⟨⟨c, u, hc, -, -, -, hsmooth, hends⟩, -⟩ :=
    fit_natural_full_smooth false _ two order
  exact ⟨two, order, c, hc, hsmooth, (hends false).1⟩

/-- **PERIODIC CURVES ARE SMOOTH**, also where the end meets the beginning:
    through three points or more in order there is a periodic curve whose
    slope and curvature at the last knot are those at the first one, whatever
    the values there. -/
theorem fit_periodic_smooth (sort : Bool) (points : List (Point ℝ))
    (three : 3 ≤ points.length) (order : InOrder sort points) :
    ∃ c : Curve ℝ, (fit .periodic sort points).result = .ok c
      ∧ c.points.toList = arrange sort points ∧ c.Smooth
      ∧ ∃ slope curvature : ℝ, ∀ extrapolate,
        c.eval .first extrapolate c.xMin = .ok slope
          ∧ c.eval .first extrapolate c.xMax = .ok slope
          ∧ c.eval .second extrapolate c.xMin = .ok curvature
          ∧ c.eval .second extrapolate c.xMax = .ok curvature := by
  obtain ⟨m, p, hlength, hp, asc, hfit⟩ :=
    order.exists_through (by omega)
  obtain ⟨m, rfl⟩ : ∃ k, m = k + 1 := ⟨m - 1, by omega⟩
  obtain ⟨u, hu, joined, hmeet⟩ := exists_circle_moments asc
  have hslopes : slopes .periodic p = .ok (Moments.slopes p (closed u)) := by
    rw [slopes, hu]
    rfl
  obtain ⟨hresult, hpoints, hmoments, hsmooth⟩ :=
    fit_of_moments (hfit _) hp asc joined hslopes
  refine ⟨_, hresult, hpoints, hsmooth,
    startSlope (widths p) (secants p) (closed u) 0, (closed u).get 0,
    fun e => ⟨?_, ?_, ?_, ?_⟩⟩
  · exact eval_first_xMin_ofSlopes _ asc e
  · rw [eval_first_xMax_ofSlopes _ asc, hmeet]
  · exact hmoments.eval_xMin (ascending_ofSlopes _ _ asc) e
  · rw [hmoments.eval_xMax (ascending_ofSlopes _ _ asc)]
    exact congrArg Except.ok (get_closed_last u)

/-- Three points, the fewest there can be, with different end values. -/
theorem fit_periodic_smooth_three_points :
    3 ≤ [(⟨0, 0⟩ : Point ℝ), ⟨1, 1⟩, ⟨3, 5⟩].length
      ∧ InOrder false [⟨0, 0⟩, ⟨1, 1⟩, ⟨3, 5⟩]
      ∧ ∃ c, (fit .periodic false [⟨0, 0⟩, ⟨1, 1⟩, ⟨3, 5⟩]).result = .ok c
        ∧ c.Smooth ∧ ∃ slope, c.eval .first false c.xMin = .ok slope
          ∧ c.eval .first false c.xMax = .ok slope := by
  have order : InOrder false [⟨0, 0⟩, ⟨1, 1⟩, ⟨3, 5⟩] := by
    have asc : [(⟨0, 0⟩ : Point ℝ), ⟨1, 1⟩, ⟨3, 5⟩].Pairwise
        fun p q => p.x < q.x := by norm_num
    rw [InOrder, arrange_of_ascending asc]
    exact asc
  have three : 3 ≤ [(⟨0, 0⟩ : Point ℝ), ⟨1, 1⟩, ⟨3, 5⟩].length := by decide
  obtain ⟨c, hc, -, hsmooth, slope, _, hends⟩ :=
    fit_periodic_smooth false _ three order
  obtain ⟨hfirst, hlast, -, -⟩ := hends false
  exact ⟨three, order, c, hc, hsmooth, slope, hfirst, hlast⟩

end Families

end PiecewiseCubic.Curve
