import PiecewiseCubic.Proofs.Curve.Derivative
import PiecewiseCubic.Proofs.Curve.Smoothness
import PiecewiseCubic.Proofs.Polynomial.Cubic

/-! # Smooth curves are the only ones

    A curve whose neighbouring segments share their curvatures has these as
    moments, and its slopes are those that the moments ask for.  So what a
    family asks for at the ends makes the moments a solution of its
    equations, which have one only.  In particular a full curve through
    points of a cubic polynomial, with the slopes of the polynomial at both
    ends, is that polynomial. -/

namespace PiecewiseCubic

open Moments

namespace Curve

/-! ## From slopes to moments -/

/-- The curvature at each knot, on the segment behind it; at the last knot on
    the segment before it. -/
noncomputable def curvatures (c : Curve ℝ) : Vector ℝ (c.inner + 2) :=
  Vector.ofFn fun i =>
    if h : i.val < c.inner + 1 then
      (c.segment ⟨i.val, h⟩).eval .second (c.segment ⟨i.val, h⟩).left.x
    else
      (c.segment (Fin.last _)).eval .second (c.segment (Fin.last _)).right.x

theorem get_curvatures_castSucc (c : Curve ℝ) (i : Fin (c.inner + 1)) :
    c.curvatures.get i.castSucc
      = (c.segment i).eval .second (c.segment i).left.x := by
  rw [curvatures, Vector.get_ofFn]
  exact dif_pos i.isLt

theorem get_curvatures_last (c : Curve ℝ) :
    c.curvatures.get (Fin.last _) = (c.segment (Fin.last _)).eval .second
      (c.segment (Fin.last _)).right.x := by
  rw [curvatures, Vector.get_ofFn]
  exact dif_neg (lt_irrefl (c.inner + 1))

/-- **SHARED CURVATURES ARE MOMENTS.** -/
theorem hasMoments_curvatures {c : Curve ℝ}
    (agree : c.AgreesAtKnots .second) : c.HasMoments c.curvatures := by
  intro i
  refine ⟨(get_curvatures_castSucc c i).symm, ?_⟩
  by_cases hi : i.val + 1 < c.inner + 1
  · exact (agree i ⟨i.val + 1, hi⟩ rfl).trans
      (get_curvatures_castSucc c ⟨i.val + 1, hi⟩).symm
  · obtain rfl : i = Fin.last _ := Fin.ext (by show i.val = c.inner; omega)
    exact (get_curvatures_last c).symm

/-- A result carried on is there if the result is. -/
theorem map_eq_ok_iff {ε β γ : Type} {found : Except ε β} {f : β → γ} {y : γ} :
    found.map f = .ok y ↔ ∃ x, found = .ok x ∧ f x = y := by
  cases found with
  | error e => exact iff_of_false nofun fun ⟨_, h, _⟩ => nomatch h
  | ok x => simp [Except.map]

theorem xMin_ofSlopes {m : ℕ} (family : Family)
    (p : Vector (Point ℝ) (m + 2)) (s : Vector ℝ (m + 2)) :
    (ofSlopes family p s).xMin = (p.get 0).x :=
  congrArg Knot.x (get_ofSlopes family p s 0)

theorem xMax_ofSlopes {m : ℕ} (family : Family)
    (p : Vector (Point ℝ) (m + 2)) (s : Vector ℝ (m + 2)) :
    (ofSlopes family p s).xMax = (p.get (Fin.last _)).x :=
  congrArg Knot.x (get_ofSlopes family p s (Fin.last _))

section OfSlopes

variable {m : ℕ} {p : Vector (Point ℝ) (m + 2)} {s u : Vector ℝ (m + 2)}
  (family : Family)

/-- The slopes of joined moments are those of the curve that has them as
    curvatures. -/
theorem joined_and_slopes_iff (asc : Moments.Ascending p) :
    Joined p u ∧ Moments.slopes p u = s
      ↔ (ofSlopes family p s).HasMoments u := by
  constructor
  · rintro ⟨joined, rfl⟩
    exact hasMoments_ofSlopes family asc joined
  · intro h
    have hslopes := (hasMoments_iff family asc).mp h
    refine ⟨fun k j hkj => ?_, Vector.ext fun i hi => ?_⟩
    · have hplace : k.succ = j.castSucc := Fin.ext hkj
      rw [← (hslopes k).2, ← (hslopes j).1, hplace]
    · by_cases hlast : i < m + 1
      · exact (get_slopes_castSucc p u ⟨i, hlast⟩).trans
          (hslopes ⟨i, hlast⟩).1.symm
      · obtain rfl : i = m + 1 := by omega
        exact (get_slopes_last p u).trans (hslopes (Fin.last m)).2.symm

/-- A family that takes its slopes from joined moments has those of a curve
    with these moments as curvatures. -/
theorem slopes_of_moments_iff (asc : Moments.Ascending p)
    {b : Boundary ℝ} {found : Except (Fault ℝ) (Vector ℝ (m + 2))}
    (hslopes : slopes b p = found.map (Moments.slopes p))
    {P : Vector ℝ (m + 2) → Prop}
    (hfound : ∀ u, found = .ok u ↔ Joined p u ∧ P u) :
    slopes b p = .ok s ↔
      ∃ u, (ofSlopes family p s).HasMoments u ∧ P u := by
  rw [hslopes, map_eq_ok_iff]
  refine exists_congr fun u => ?_
  rw [hfound, ← joined_and_slopes_iff family asc, and_right_comm]

/-- Curvatures at the ends are what the curve answers there. -/
theorem exists_hasMoments_iff
    {P : Vector ℝ (m + 2) → Prop} {Q : Prop}
    (hP : ∀ u, (ofSlopes family p s).HasMoments u → (P u ↔ Q)) :
    (∃ u, (ofSlopes family p s).HasMoments u ∧ P u)
      ↔ (ofSlopes family p s).AgreesAtKnots .second ∧ Q := by
  constructor
  · rintro ⟨u, hu, hPu⟩
    exact ⟨hu.agrees_second, (hP u hu).mp hPu⟩
  · rintro ⟨agree, hQ⟩
    have hu := hasMoments_curvatures agree
    exact ⟨_, hu, (hP _ hu).mpr hQ⟩

/-- **NATURAL SLOPES** are those of a curve with shared curvatures that are
    zero at both ends. -/
theorem slopes_natural_iff (asc : Moments.Ascending p) :
    slopes .natural p = .ok s ↔
      (ofSlopes family p s).AgreesAtKnots .second
        ∧ (ofSlopes family p s).eval .second false (p.get 0).x = .ok 0
        ∧ (ofSlopes family p s).eval .second false (p.get (Fin.last _)).x
          = .ok 0 := by
  refine (slopes_of_moments_iff family asc rfl
    fun u => natural_moments_iff asc).trans
      (exists_hasMoments_iff family fun u hu => ?_)
  have hasc := ascending_ofSlopes family s asc
  rw [← xMin_ofSlopes family p s, ← xMax_ofSlopes family p s,
    hu.eval_xMin hasc, hu.eval_xMax hasc, Except.ok.injEq, Except.ok.injEq]
  exact Iff.rfl

/-- **FULL SLOPES** are those of a curve with shared curvatures that has the
    given slopes at both ends. -/
theorem slopes_full_iff (asc : Moments.Ascending p) {m₀ m₁ : ℝ} :
    slopes (.full m₀ m₁) p = .ok s ↔
      (ofSlopes family p s).AgreesAtKnots .second
        ∧ s.get 0 = m₀ ∧ s.get (Fin.last _) = m₁ := by
  refine (slopes_of_moments_iff family asc rfl
    fun u => full_moments_iff asc).trans
      (exists_hasMoments_iff family fun u hu => ?_)
  have hslopes := (hasMoments_iff family asc).mp hu
  rw [← (hslopes 0).1, ← (hslopes (Fin.last m)).2]
  exact Iff.rfl

end OfSlopes

section Periodic

variable {m : ℕ} {p : Vector (Point ℝ) (m + 3)} {s : Vector ℝ (m + 3)}
  (family : Family)

/-- Moments with one value at both ends are those of a circle. -/
theorem exists_closed_iff {u : Vector ℝ (m + 3)} :
    (∃ v, closed v = u) ↔ u.get 0 = u.get (Fin.last _) := by
  constructor
  · rintro ⟨v, rfl⟩
    exact (get_closed_last v).symm
  · intro hends
    let v : Vector ℝ (m + 2) := Vector.ofFn fun k => u.get k.succ
    have hv (k : Fin (m + 2)) : v.get k = u.get k.succ := Vector.get_ofFn _ k
    have hget (i : Fin (m + 3)) : (closed v).get i = u.get i := by
      cases i using Fin.cases with
      | zero =>
          rw [← get_closed_last, hends]
          exact (get_closed_succ v (Fin.last _)).trans (hv (Fin.last _))
      | succ k => rw [get_closed_succ, hv]
    exact ⟨v, Vector.ext fun i hi => hget ⟨i, hi⟩⟩

/-- **PERIODIC SLOPES** are those of a curve with shared curvatures whose
    slope and curvature at the last knot are those at the first one. -/
theorem slopes_periodic_iff (asc : Moments.Ascending p) :
    slopes .periodic p = .ok s ↔
      (ofSlopes family p s).AgreesAtKnots .second
        ∧ s.get 0 = s.get (Fin.last _)
        ∧ (ofSlopes family p s).eval .second false (p.get 0).x
          = (ofSlopes family p s).eval .second false
            (p.get (Fin.last _)).x := by
  let found := moments (periodicMatrix p) (periodicBends p)
  have hslopes : slopes .periodic p
      = (found.map closed).map (Moments.slopes p) := by
    show found.map (fun u => Moments.slopes p (closed u)) = _
    cases found with
    | error e => rfl
    | ok u => rfl
  have hfound (u : Vector ℝ (m + 3)) : found.map closed = .ok u
      ↔ Joined p u
        ∧ (endSlope (widths p) (secants p) u (Fin.last _)
            = startSlope (widths p) (secants p) u 0
          ∧ u.get 0 = u.get (Fin.last _)) := by
    rw [map_eq_ok_iff, ← exists_closed_iff]
    constructor
    · rintro ⟨v, hv, rfl⟩
      obtain ⟨joined, seam⟩ := (periodic_moments_iff asc).mp hv
      exact ⟨joined, seam, v, rfl⟩
    · rintro ⟨joined, seam, v, rfl⟩
      exact ⟨v, (periodic_moments_iff asc).mpr ⟨joined, seam⟩, rfl⟩
  refine (slopes_of_moments_iff family asc hslopes hfound).trans
    (exists_hasMoments_iff family fun u hu => ?_)
  have hasc := ascending_ofSlopes family s asc
  have hslope := (hasMoments_iff family asc).mp hu
  rw [← (hslope 0).1, ← (hslope (Fin.last _)).2,
    ← xMin_ofSlopes family p s, ← xMax_ofSlopes family p s,
    hu.eval_xMin hasc, hu.eval_xMax hasc, Except.ok.injEq, eq_comm]
  exact Iff.rfl

end Periodic

end Curve

/-! ## Points of a polynomial -/

theorem Cubic.deriv_eval (P : Cubic ℝ) (x : ℝ) :
    deriv P.eval x = (3 * P.a * x + 2 * P.b) * x + P.c :=
  (P.hasDerivAt_eval x).deriv

namespace Segment

/-- Both knots lie on a polynomial and have its slopes. -/
structure Osculates (s : Segment ℝ) (P : Cubic ℝ) : Prop where
  left_y : s.left.y = P.eval s.left.x
  right_y : s.right.y = P.eval s.right.x
  left_slope : s.left.slope = deriv P.eval s.left.x
  right_slope : s.right.slope = deriv P.eval s.right.x

namespace Osculates

variable {s : Segment ℝ} {P : Cubic ℝ} (h : s.Osculates P)

include h

/-- The slope of the straight line is a divided difference. -/
theorem secant_eq (hw : s.width ≠ 0) :
    s.secant = P.a * (s.right.x ^ 2 + s.right.x * s.left.x + s.left.x ^ 2)
      + P.b * (s.right.x + s.left.x) + P.c := by
  have hwidth : s.width = s.right.x - s.left.x := rfl
  refine (div_eq_iff hw).mpr ?_
  rw [h.left_y, h.right_y, P.eval_eq, P.eval_eq, hwidth]
  ring

/-- The segment is the polynomial. -/
theorem eval_value (hw : s.width ≠ 0) (x : ℝ) :
    s.eval .value x = P.eval x := by
  have hx : x = s.left.x + s.fraction x * s.width := by
    rw [fraction, div_mul_cancel₀ _ hw, add_sub_cancel]
  have hright : s.right.x = s.left.x + s.width := (add_sub_cancel _ _).symm
  have hvalue := s.eval_value_sub_left hw x
  rw [h.left_y, h.left_slope, h.right_slope, h.secant_eq hw, P.deriv_eval,
    P.deriv_eval, hright, P.eval_eq] at hvalue
  generalize s.fraction x = t at hx hvalue
  conv_rhs => rw [hx, P.eval_eq]
  linear_combination hvalue

/-- At the left knot the segment has the curvature of the polynomial. -/
theorem eval_second_left (hw : s.width ≠ 0) :
    s.eval .second s.left.x = 6 * P.a * s.left.x + 2 * P.b := by
  have hright : s.right.x = s.left.x + s.width := (add_sub_cancel _ _).symm
  rw [s.eval_second_left hw, div_eq_iff hw, h.left_slope, h.right_slope,
    h.secant_eq hw, P.deriv_eval, P.deriv_eval, hright]
  ring

/-- At the right knot the segment has the curvature of the polynomial. -/
theorem eval_second_right (hw : s.width ≠ 0) :
    s.eval .second s.right.x = 6 * P.a * s.right.x + 2 * P.b := by
  have hright : s.right.x = s.left.x + s.width := (add_sub_cancel _ _).symm
  rw [s.eval_second_right hw, div_eq_iff hw, h.left_slope, h.right_slope,
    h.secant_eq hw, P.deriv_eval, P.deriv_eval, hright]
  ring

end Osculates

end Segment

namespace Curve

section Polynomial

variable {m : ℕ} {p : Vector (Point ℝ) (m + 2)} {s : Vector ℝ (m + 2)}
  {P : Cubic ℝ} (family : Family)

/-- Each segment between points of a polynomial with its slopes osculates
    it. -/
theorem osculates_ofSlopes (hp : ∀ i, (p.get i).y = P.eval (p.get i).x)
    (hs : ∀ i, s.get i = deriv P.eval (p.get i).x) (k : Fin (m + 1)) :
    ((ofSlopes family p s).segment k).Osculates P := by
  rw [segment_ofSlopes]
  exact ⟨hp _, hp _, hs _, hs _⟩

/-- **POINTS OF A POLYNOMIAL** with its slopes at both ends have its slopes at
    all knots. -/
theorem slopes_full_of_polynomial (asc : Moments.Ascending p)
    (hp : ∀ i, (p.get i).y = P.eval (p.get i).x)
    (hs : ∀ i, s.get i = deriv P.eval (p.get i).x) :
    slopes (.full (s.get 0) (s.get (Fin.last _))) p = .ok s := by
  refine (slopes_full_iff .full asc).mpr ⟨?_, rfl, rfl⟩
  have hasc := ascending_ofSlopes .full s asc
  have hosc := osculates_ofSlopes .full hp hs
  rintro i ⟨j, hj⟩ hij
  obtain rfl : j = i.val + 1 := hij.symm
  exact ((hosc i).eval_second_right (hasc.width_ne_zero i)).trans
    ((hosc ⟨i.val + 1, hj⟩).eval_second_left (hasc.width_ne_zero _)).symm

end Polynomial

/-- The slopes of a curve at its knots. -/
def knotSlopes (c : Curve ℝ) : Vector ℝ (c.inner + 2) :=
  c.knots.map Knot.slope

/-- The curve with the same points and other slopes. -/
def withSlopes (c : Curve ℝ) (s : Vector ℝ (c.inner + 2)) : Curve ℝ :=
  ofSlopes c.family c.points s

section Fitted

variable {m : ℕ} {p : Vector (Point ℝ) (m + 2)} {s t : Vector ℝ (m + 2)}

theorem knotSlopes_ofSlopes (family : Family) :
    (ofSlopes family p s).knotSlopes = s := by
  refine Vector.ext fun i hi => (Vector.getElem_map _ hi).trans ?_
  exact congrArg Knot.slope (get_ofSlopes family p s ⟨i, hi⟩)

theorem withSlopes_ofSlopes (family : Family) :
    (ofSlopes family p s).withSlopes t = ofSlopes family p t :=
  congrArg (ofSlopes family · t) (points_ofSlopes family p s)

/-- The slopes that a family finds are those of its curve. -/
theorem eq_knotSlopes_iff {b : Boundary ℝ} (hs : slopes b p = .ok s) :
    t = (ofSlopes b.family p s).knotSlopes ↔ slopes b p = .ok t := by
  rw [hs, knotSlopes_ofSlopes, Except.ok.injEq, eq_comm]

theorem only_natural (asc : Moments.Ascending p)
    (hs : slopes .natural p = .ok s) (t : Vector ℝ (m + 2)) :
    ((ofSlopes .natural p s).withSlopes t).AgreesAtKnots .second
        ∧ ((ofSlopes .natural p s).withSlopes t).eval .second false
            (ofSlopes .natural p s).xMin = .ok 0
        ∧ ((ofSlopes .natural p s).withSlopes t).eval .second false
            (ofSlopes .natural p s).xMax = .ok 0
      ↔ t = (ofSlopes .natural p s).knotSlopes := by
  rw [withSlopes_ofSlopes, xMin_ofSlopes, xMax_ofSlopes]
  exact (slopes_natural_iff .natural asc).symm.trans (eq_knotSlopes_iff hs).symm

theorem only_full (asc : Moments.Ascending p) {m₀ m₁ : ℝ}
    (hs : slopes (.full m₀ m₁) p = .ok s) (t : Vector ℝ (m + 2)) :
    ((ofSlopes .full p s).withSlopes t).AgreesAtKnots .second
        ∧ t.get 0 = m₀ ∧ t.get (Fin.last _) = m₁
      ↔ t = (ofSlopes .full p s).knotSlopes := by
  rw [withSlopes_ofSlopes]
  exact (slopes_full_iff .full asc).symm.trans (eq_knotSlopes_iff hs).symm

theorem only_periodic {p : Vector (Point ℝ) (m + 3)}
    {s : Vector ℝ (m + 3)} (asc : Moments.Ascending p)
    (hs : slopes .periodic p = .ok s) (t : Vector ℝ (m + 3)) :
    ((ofSlopes .periodic p s).withSlopes t).AgreesAtKnots .second
        ∧ t.get 0 = t.get (Fin.last _)
        ∧ ((ofSlopes .periodic p s).withSlopes t).eval .second false
            (ofSlopes .periodic p s).xMin
          = ((ofSlopes .periodic p s).withSlopes t).eval .second false
            (ofSlopes .periodic p s).xMax
      ↔ t = (ofSlopes .periodic p s).knotSlopes := by
  rw [withSlopes_ofSlopes, xMin_ofSlopes, xMax_ofSlopes]
  exact (slopes_periodic_iff .periodic asc).symm.trans
    (eq_knotSlopes_iff hs).symm

/-- **A FULL CURVE THROUGH POINTS OF A POLYNOMIAL** with its slopes at both
    ends is the polynomial. -/
theorem eval_of_polynomial (asc : Moments.Ascending p) {m₀ m₁ : ℝ}
    (hs : slopes (.full m₀ m₁) p = .ok s) {P : Cubic ℝ}
    (hp : ∀ i, (p.get i).y = P.eval (p.get i).x)
    (h₀ : deriv P.eval (p.get 0).x = m₀)
    (h₁ : deriv P.eval (p.get (Fin.last _)).x = m₁) {x : ℝ}
    (hmin : (ofSlopes .full p s).xMin ≤ x)
    (hmax : x ≤ (ofSlopes .full p s).xMax) :
    (ofSlopes .full p s).eval .value false x = .ok (P.eval x) := by
  let t : Vector ℝ (m + 2) := Vector.ofFn fun i => deriv P.eval (p.get i).x
  have ht (i : Fin (m + 2)) : t.get i = deriv P.eval (p.get i).x :=
    Vector.get_ofFn _ i
  have hslopes := slopes_full_of_polynomial asc hp ht
  rw [ht, ht, h₀, h₁, hs] at hslopes
  have hst : s = t := Except.ok.inj hslopes
  rw [← hst] at ht
  rw [eval_eq_inside hmin hmax, inside]
  exact congrArg Except.ok ((osculates_ofSlopes .full hp ht _).eval_value
    ((ascending_ofSlopes .full s asc).width_ne_zero _) x)

end Fitted

/-- **SMOOTH CURVES ARE THE ONLY ONES**: of all curves through points in order
    whose neighbouring segments share their curvatures, the natural curve is
    the only one without curvature at both ends, the full curve the only one
    with the given slopes at both ends, and the periodic curve the only one
    whose slope and curvature at the last knot are those at the first one.
    A full curve through points of a cubic polynomial, with the slopes of the
    polynomial at both ends, is the polynomial. -/
theorem fit_smooth_unique (sort : Bool) (points : List (Point ℝ))
    (two : 2 ≤ points.length) (order : InOrder sort points) :
    (∃ c : Curve ℝ, (fit .natural sort points).result = .ok c
      ∧ c.points.toList = arrange sort points
      ∧ ∀ s : Vector ℝ (c.inner + 2),
        (c.withSlopes s).AgreesAtKnots .second
            ∧ (c.withSlopes s).eval .second false c.xMin = .ok 0
            ∧ (c.withSlopes s).eval .second false c.xMax = .ok 0
          ↔ s = c.knotSlopes)
      ∧ (∀ m₀ m₁ : ℝ, ∃ c : Curve ℝ,
        (fit (.full m₀ m₁) sort points).result = .ok c
          ∧ c.points.toList = arrange sort points
          ∧ (∀ s : Vector ℝ (c.inner + 2),
            (c.withSlopes s).AgreesAtKnots .second
                ∧ s.get 0 = m₀ ∧ s.get (Fin.last _) = m₁
              ↔ s = c.knotSlopes)
          ∧ ∀ P : Cubic ℝ, (∀ q ∈ points, q.y = P.eval q.x) →
            HasDerivAt P.eval m₀ c.xMin → HasDerivAt P.eval m₁ c.xMax →
            ∀ x, c.xMin ≤ x → x ≤ c.xMax →
              c.eval .value false x = .ok (P.eval x))
      ∧ (3 ≤ points.length → ∃ c : Curve ℝ,
        (fit .periodic sort points).result = .ok c
          ∧ c.points.toList = arrange sort points
          ∧ ∀ s : Vector ℝ (c.inner + 2),
            (c.withSlopes s).AgreesAtKnots .second
                ∧ s.get 0 = s.get (Fin.last _)
                ∧ (c.withSlopes s).eval .second false c.xMin
                  = (c.withSlopes s).eval .second false c.xMax
              ↔ s = c.knotSlopes) := by
  obtain ⟨m, p, hlength, hp, asc, hfit⟩ := order.exists_through two
  refine ⟨?_, fun m₀ m₁ => ?_, fun three => ?_⟩
  · obtain ⟨u, hu, -⟩ := exists_natural_moments asc
    have hs : slopes .natural p = .ok (Moments.slopes p u) := by
      rw [slopes, hu]
      rfl
    obtain ⟨hresult, hpoints⟩ := fit_of_slopes (hfit _) hp hs
    exact ⟨_, hresult, hpoints, only_natural asc hs⟩
  · obtain ⟨u, hu, -⟩ := exists_full_moments asc m₀ m₁
    have hs : slopes (.full m₀ m₁) p = .ok (Moments.slopes p u) := by
      rw [slopes, hu]
      rfl
    obtain ⟨hresult, hpoints⟩ := fit_of_slopes (hfit _) hp hs
    refine ⟨_, hresult, hpoints, only_full asc hs, fun P hP h₀ h₁ x => ?_⟩
    have hmem (i : Fin (m + 2)) : p.get i ∈ points := by
      rw [← (arrange_perm sort points).mem_iff, ← hp]
      exact List.getElem_mem _
    rw [xMin_ofSlopes] at h₀
    rw [xMax_ofSlopes] at h₁
    exact eval_of_polynomial asc hs (fun i => hP _ (hmem i)) h₀.deriv h₁.deriv
  · obtain ⟨m, rfl⟩ : ∃ k, m = k + 1 := ⟨m - 1, by omega⟩
    obtain ⟨u, hu, -⟩ := exists_circle_moments asc
    have hs : slopes .periodic p = .ok (Moments.slopes p (closed u)) := by
      rw [slopes, hu]
      rfl
    obtain ⟨hresult, hpoints⟩ := fit_of_slopes (hfit _) hp hs
    exact ⟨_, hresult, hpoints, only_periodic asc hs⟩

/-- Three uneven points of the third power. -/
theorem fit_smooth_unique_cube :
    2 ≤ [(⟨0, 0⟩ : Point ℝ), ⟨1, 1⟩, ⟨3, 27⟩].length
      ∧ InOrder false [⟨0, 0⟩, ⟨1, 1⟩, ⟨3, 27⟩]
      ∧ ∃ c : Curve ℝ,
        (fit (.full 0 27) false [⟨0, 0⟩, ⟨1, 1⟩, ⟨3, 27⟩]).result = .ok c
          ∧ c.eval .value false 2 = .ok 8 := by
  have asc : [(⟨0, 0⟩ : Point ℝ), ⟨1, 1⟩, ⟨3, 27⟩].Pairwise
      fun p q => p.x < q.x := by norm_num
  have two : 2 ≤ [(⟨0, 0⟩ : Point ℝ), ⟨1, 1⟩, ⟨3, 27⟩].length := by decide
  have harrange := arrange_of_ascending asc
  have order : InOrder false [⟨0, 0⟩, ⟨1, 1⟩, ⟨3, 27⟩] := by
    rw [InOrder, harrange]
    exact asc
  obtain ⟨-, hfull, -⟩ := fit_smooth_unique false _ two order
  obtain ⟨c, hc, hpoints, -, hpolynomial⟩ := hfull 0 27
  rw [harrange] at hpoints
  have hmin : c.xMin = 0 := by
    have h := head?_points c
    rw [hpoints] at h
    exact (Option.some.inj h).symm
  have hmax : c.xMax = 3 := by
    have h := getLast?_points c
    rw [hpoints] at h
    exact (Option.some.inj h).symm
  let cube : Cubic ℝ := ⟨1, 0, 0, 0⟩
  have hcube (x : ℝ) : cube.eval x = x ^ 3 := by
    rw [cube.eval_eq]
    show 1 * x ^ 3 + 0 * x ^ 2 + 0 * x + 0 = x ^ 3
    ring
  have hslope (x : ℝ) : HasDerivAt cube.eval (3 * x ^ 2) x :=
    (cube.hasDerivAt_eval x).congr_deriv (by
      show (3 * 1 * x + 2 * 0) * x + 0 = 3 * x ^ 2
      ring)
  refine ⟨two, order, c, hc, ?_⟩
  have hpoint : ∀ q ∈ [(⟨0, 0⟩ : Point ℝ), ⟨1, 1⟩, ⟨3, 27⟩],
      q.y = cube.eval q.x := by
    simp only [List.forall_mem_cons, hcube]
    norm_num
  have h₀ : HasDerivAt cube.eval 0 c.xMin := by
    rw [hmin]
    exact (hslope 0).congr_deriv (by norm_num)
  have h₁ : HasDerivAt cube.eval 27 c.xMax := by
    rw [hmax]
    exact (hslope 3).congr_deriv (by norm_num)
  have heval := hpolynomial cube hpoint h₀ h₁ 2
    (by rw [hmin]; exact two_pos.le) (by rw [hmax]; norm_num)
  rw [heval, hcube]
  exact congrArg Except.ok (by norm_num)

end Curve

end PiecewiseCubic
