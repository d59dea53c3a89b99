import PiecewiseCubic.Proofs.Curve.Lookup

/-! # The derivatives of a curve

    The real line is covered by the straight continuation on the left, the
    segments and the straight continuation on the right.  On each of these
    closed pieces a curve is a polynomial and its slope is the derivative of
    that polynomial.  Every position has such a piece on its left and one on
    its right, and the two derivatives are the same number, so the slope is
    the derivative of the curve and it is continuous.  Around a position that
    is no knot one piece is all there is, and there the second and the third
    derivative are those of the polynomial too. -/

namespace PiecewiseCubic

open Set Topology

theorem Cubic.hasDerivAt_eval (p : Cubic ℝ) (x : ℝ) :
    HasDerivAt p.eval ((3 * p.a * x + 2 * p.b) * x + p.c) x := by
  have hfirst := ((hasDerivAt_id' x).const_mul p.a).add_const p.b
  have hsecond := (hfirst.mul (hasDerivAt_id' x)).add_const p.c
  have hthird := (hsecond.mul (hasDerivAt_id' x)).add_const p.d
  refine hthird.congr_deriv ?_
  show (p.a * 1 * x + (p.a * x + p.b) * 1) * x
    + ((p.a * x + p.b) * x + p.c) * 1 = _
  ring

namespace Segment

variable (s : Segment ℝ) (hw : s.width ≠ 0) (x : ℝ)

include hw

theorem hasDerivAt_eval :
    HasDerivAt (s.eval .value) (s.eval .first x) x := by
  have hfun : s.eval .value = fun x => s.localCubic.eval (x - s.left.x) :=
    funext (s.eval_value_eq_localCubic hw)
  rw [hfun, s.eval_first_eq_localCubic hw]
  exact (s.localCubic.hasDerivAt_eval _).comp_sub_const x s.left.x

theorem hasDerivAt_eval_first :
    HasDerivAt (s.eval .first) (s.eval .second x) x := by
  have hfun : s.eval .first = fun x =>
      (⟨0, 3 * s.localCubic.a, 2 * s.localCubic.b, s.localCubic.c⟩
        : Cubic ℝ).eval (x - s.left.x) := by
    funext x
    rw [s.eval_first_eq_localCubic hw, Cubic.eval]
    ring
  rw [hfun, s.eval_second_eq_localCubic hw]
  refine ((Cubic.hasDerivAt_eval _ _).comp_sub_const x s.left.x).congr_deriv ?_
  ring

theorem hasDerivAt_eval_second :
    HasDerivAt (s.eval .second) (s.eval .third x) x := by
  have hfun : s.eval .second = fun x =>
      6 * s.localCubic.a * (x - s.left.x) + 2 * s.localCubic.b :=
    funext (s.eval_second_eq_localCubic hw)
  rw [hfun, s.eval_third_eq_localCubic hw]
  have h := (((hasDerivAt_id' x).sub_const s.left.x).const_mul
    (6 * s.localCubic.a)).add_const (2 * s.localCubic.b)
  exact h.congr_deriv (mul_one _)

theorem continuous_eval_first : Continuous (s.eval .first) :=
  continuous_iff_continuousAt.mpr fun x =>
    (s.hasDerivAt_eval_first hw x).continuousAt

end Segment

namespace Curve

variable {c : Curve ℝ}

/-- On a piece the curve and its slope are a function and its derivative. -/
def IsPiece (c : Curve ℝ) (f f' : ℝ → ℝ) (piece : Set ℝ) : Prop :=
  ∀ x ∈ piece, c.continued .value x = f x ∧ c.continued .first x = f' x
    ∧ HasDerivAt f (f' x) x

theorem IsPiece.hasDerivWithinAt {f f' : ℝ → ℝ} {piece : Set ℝ}
    (h : c.IsPiece f f' piece) {x : ℝ} (hx : x ∈ piece) :
    HasDerivWithinAt (c.continued .value) (c.continued .first x) piece x := by
  obtain ⟨hvalue, hfirst, hf⟩ := h x hx
  rw [hfirst]
  exact hf.hasDerivWithinAt.congr (fun z hz => (h z hz).1) hvalue

theorem IsPiece.continuousWithinAt {f f' : ℝ → ℝ} {piece : Set ℝ}
    (h : c.IsPiece f f' piece) (hf' : Continuous f') {x : ℝ}
    (hx : x ∈ piece) : ContinuousWithinAt (c.continued .first) piece x :=
  hf'.continuousWithinAt.congr (fun z hz => (h z hz).2.1) (h x hx).2.1

theorem hasDerivAt_tail (knot : Knot ℝ) (slope x : ℝ) :
    HasDerivAt (tail knot slope .value) slope x := by
  have h := (((hasDerivAt_id' x).sub_const knot.x).const_mul slope).const_add
    knot.y
  exact h.congr_deriv (mul_one slope)

namespace Ascending

variable (asc : c.Ascending)

include asc

theorem isPiece_left :
    c.IsPiece (tail c.firstKnot c.leftSlope .value) (fun _ => c.leftSlope)
      (Iic c.xMin) := by
  intro x hx
  refine ⟨?_, ?_, hasDerivAt_tail _ _ _⟩
  · rcases (mem_Iic.mp hx).lt_or_eq with hlt | rfl
    · rw [continued, if_pos hlt]
    · rw [continued_eq_inside (le_refl _) asc.xMin_lt_xMax.le,
        asc.inside_xMin]
      refine ((c.segment 0).eval_value_left (asc.width_ne_zero 0)).trans ?_
      show c.firstKnot.y
        = c.firstKnot.y + c.leftSlope * (c.firstKnot.x - c.firstKnot.x)
      rw [sub_self, mul_zero, add_zero]
  · rcases (mem_Iic.mp hx).lt_or_eq with hlt | rfl
    · rw [continued, if_pos hlt]
      rfl
    · rw [continued_eq_inside (le_refl _) asc.xMin_lt_xMax.le,
        asc.inside_xMin]
      rfl

theorem isPiece_segment (i : Fin (c.inner + 1)) :
    c.IsPiece ((c.segment i).eval .value) ((c.segment i).eval .first)
      (Icc (c.segment i).left.x (c.segment i).right.x) := by
  rintro x ⟨h₀, h₁⟩
  obtain ⟨hmin, hmax⟩ := asc.segment_mem i
  have hinside := fun order =>
    continued_eq_inside (hmin.trans h₀) (h₁.trans hmax) order
  refine ⟨?_, ?_, Segment.hasDerivAt_eval _ (asc.width_ne_zero i) x⟩
  · rw [hinside, asc.inside_eq asc.agrees_value h₀ h₁]
  · rw [hinside, asc.inside_eq asc.agrees_first h₀ h₁]

theorem isPiece_right :
    c.IsPiece (tail c.lastKnot c.rightSlope .value) (fun _ => c.rightSlope)
      (Ici c.xMax) := by
  intro x hx
  refine ⟨?_, ?_, hasDerivAt_tail _ _ _⟩
  · rcases (mem_Ici.mp hx).lt_or_eq with hlt | rfl
    · rw [continued, if_neg (asc.xMin_lt_xMax.trans hlt).not_gt, if_pos hlt]
    · rw [continued_eq_inside asc.xMin_lt_xMax.le (le_refl _),
        asc.inside_xMax]
      refine ((c.segment (Fin.last _)).eval_value_right
        (asc.width_ne_zero _)).trans ?_
      show c.lastKnot.y
        = c.lastKnot.y + c.rightSlope * (c.lastKnot.x - c.lastKnot.x)
      rw [sub_self, mul_zero, add_zero]
  · rcases (mem_Ici.mp hx).lt_or_eq with hlt | rfl
    · rw [continued, if_neg (asc.xMin_lt_xMax.trans hlt).not_gt, if_pos hlt]
      rfl
    · rw [continued_eq_inside asc.xMin_lt_xMax.le (le_refl _),
        asc.inside_xMax]
      rfl

/-- A position behind the first knot is behind the left knot of a segment
    that reaches it. -/
theorem exists_segment_before {x : ℝ} (h₀ : c.xMin < x) (h₁ : x ≤ c.xMax) :
    ∃ i, x ∈ Ioc (c.segment i).left.x (c.segment i).right.x := by
  obtain ⟨hleft, hright⟩ := asc.mem_segment h₀.le h₁
  rcases hleft.lt_or_eq with hlt | heq
  · exact ⟨_, hlt, hright⟩
  -- at a knot it is the segment before that of the position
  obtain ⟨i, hi⟩ : ∃ i, i = c.segmentIndex x := ⟨_, rfl⟩
  rw [← hi] at heq
  obtain ⟨i, hlt⟩ := i
  cases i with
  | zero => exact absurd heq h₀.ne
  | succ i =>
      refine ⟨⟨i, Nat.lt_of_succ_lt hlt⟩, ?_, heq.ge⟩
      rw [← heq]
      exact asc.lt (Nat.lt_succ_self i) (by omega)

/-- A position before the last knot is before the right knot of a segment
    that begins there or earlier. -/
theorem exists_segment_behind {x : ℝ} (h₀ : c.xMin ≤ x) (h₁ : x < c.xMax) :
    ∃ i, x ∈ Ico (c.segment i).left.x (c.segment i).right.x := by
  obtain ⟨hleft, -⟩ := asc.mem_segment h₀ h₁.le
  refine ⟨c.segmentIndex x, hleft, ?_⟩
  rcases (c.segmentIndex_bracket x).2 with hlast | hlt
  · have hmax : c.xMax ≤ (c.segment (c.segmentIndex x)).right.x :=
      asc.le (by omega) (by omega)
    exact h₁.trans_le hmax
  · exact hlt

/-- A piece reaches each position from the left. -/
theorem exists_piece_before (x : ℝ) :
    ∃ f f' piece, c.IsPiece f f' piece ∧ Continuous f' ∧ x ∈ piece
      ∧ piece ∈ 𝓝[≤] x := by
  rcases le_or_gt x c.xMin with hmin | hmin
  · exact ⟨_, _, _, asc.isPiece_left, continuous_const, hmin,
      Filter.mem_of_superset self_mem_nhdsWithin (Iic_subset_Iic.mpr hmin)⟩
  rcases le_or_gt x c.xMax with hmax | hmax
  · obtain ⟨i, hi⟩ := asc.exists_segment_before hmin hmax
    exact ⟨_, _, _, asc.isPiece_segment i,
      Segment.continuous_eval_first _ (asc.width_ne_zero i),
      Ioc_subset_Icc_self hi, Icc_mem_nhdsLE_of_mem hi⟩
  · exact ⟨_, _, _, asc.isPiece_right, continuous_const, hmax.le,
      mem_nhdsWithin_of_mem_nhds (Ici_mem_nhds hmax)⟩

/-- A piece reaches each position from the right. -/
theorem exists_piece_behind (x : ℝ) :
    ∃ f f' piece, c.IsPiece f f' piece ∧ Continuous f' ∧ x ∈ piece
      ∧ piece ∈ 𝓝[≥] x := by
  rcases lt_or_ge x c.xMin with hmin | hmin
  · exact ⟨_, _, _, asc.isPiece_left, continuous_const, hmin.le,
      mem_nhdsWithin_of_mem_nhds (Iic_mem_nhds hmin)⟩
  rcases lt_or_ge x c.xMax with hmax | hmax
  · obtain ⟨i, hi⟩ := asc.exists_segment_behind hmin hmax
    exact ⟨_, _, _, asc.isPiece_segment i,
      Segment.continuous_eval_first _ (asc.width_ne_zero i),
      Ico_subset_Icc_self hi, Icc_mem_nhdsGE_of_mem hi⟩
  · exact ⟨_, _, _, asc.isPiece_right, continuous_const, hmax,
      Filter.mem_of_superset self_mem_nhdsWithin (Ici_subset_Ici.mpr hmax)⟩

/-- **THE SLOPE IS THE DERIVATIVE** of the curve with its continuations, at
    the knots as everywhere. -/
theorem hasDerivAt_continued (x : ℝ) :
    HasDerivAt (c.continued .value) (c.continued .first x) x := by
  obtain ⟨_, _, before, hbefore, -, hx, hleft⟩ := asc.exists_piece_before x
  obtain ⟨_, _, behind, hbehind, -, hx', hright⟩ := asc.exists_piece_behind x
  have h := ((hbefore.hasDerivWithinAt hx).mono_of_mem_nhdsWithin hleft).union
    ((hbehind.hasDerivWithinAt hx').mono_of_mem_nhdsWithin hright)
  rwa [Iic_union_Ici, hasDerivWithinAt_univ] at h

/-- **THE SLOPE IS CONTINUOUS**, at the knots as everywhere. -/
theorem continuous_continued_first : Continuous (c.continued .first) := by
  refine continuous_iff_continuousAt.mpr fun x => ?_
  obtain ⟨_, _, before, hbefore, hf, hx, hleft⟩ := asc.exists_piece_before x
  obtain ⟨_, _, behind, hbehind, hf', hx', hright⟩ :=
    asc.exists_piece_behind x
  exact continuousAt_iff_continuous_left_right.mpr
    ⟨(hbefore.continuousWithinAt hf hx).mono_of_mem_nhdsWithin hleft,
      (hbehind.continuousWithinAt hf' hx').mono_of_mem_nhdsWithin hright⟩

end Ascending

/-! ## Away from the knots -/

/-- Around a position the curve and its derivatives are some functions, each
    of the last three the derivative of the one before it. -/
def LocallyAt (c : Curve ℝ) (f : Order → ℝ → ℝ) (x : ℝ) : Prop :=
  (∀ order, c.continued order =ᶠ[𝓝 x] f order)
    ∧ HasDerivAt (f .first) (f .second x) x
    ∧ HasDerivAt (f .second) (f .third x) x

theorem locallyAt_tail {knot : Knot ℝ} {slope x : ℝ} {beyond : Set ℝ}
    (mem : beyond ∈ 𝓝 x) (h : ∀ z ∈ beyond, ∀ order,
      c.continued order z = tail knot slope order z) :
    c.LocallyAt (tail knot slope) x :=
  ⟨fun order => Filter.eventuallyEq_of_mem mem fun z hz => h z hz order,
    hasDerivAt_const x slope, hasDerivAt_const x 0⟩

namespace Ascending

variable (asc : c.Ascending)

include asc

theorem locallyAt_segment {i : Fin (c.inner + 1)} {x : ℝ}
    (hx : x ∈ Ioo (c.segment i).left.x (c.segment i).right.x) :
    c.LocallyAt (c.segment i).eval x := by
  obtain ⟨hmin, hmax⟩ := asc.segment_mem i
  have hwidth := asc.width_ne_zero i
  refine ⟨fun order => ?_, (c.segment i).hasDerivAt_eval_first hwidth x,
    (c.segment i).hasDerivAt_eval_second hwidth x⟩
  refine Filter.eventuallyEq_of_mem (Ioo_mem_nhds hx.1 hx.2) fun z hz => ?_
  have hindex : c.segmentIndex z = i :=
    asc.segmentIndex_eq (Or.inr hz.1.le) (Or.inr hz.2)
  rw [continued_eq_inside (hmin.trans hz.1.le) (hz.2.le.trans hmax), inside,
    hindex]

/-- A position that is no knot has a piece on both sides. -/
theorem exists_locallyAt {x : ℝ}
    (off : ∀ i : Fin (c.inner + 2), (c.knots.get i).x ≠ x) :
    ∃ f, c.LocallyAt f x := by
  rcases (off 0).lt_or_gt with hmin | hmin
  · rcases (off (Fin.last _)).lt_or_gt with hmax | hmax
    · exact ⟨_, locallyAt_tail (Ioi_mem_nhds hmax) fun z hz order =>
        asc.sorted.continued_of_xMax_lt hz order⟩
    · obtain ⟨i, hi⟩ := asc.exists_segment_behind hmin.le hmax
      exact ⟨_, asc.locallyAt_segment
        ⟨hi.1.lt_of_ne (off i.castSucc), hi.2⟩⟩
  · exact ⟨_, locallyAt_tail (Iio_mem_nhds hmin) fun z hz order =>
      asc.sorted.continued_of_lt_xMin hz order⟩

/-- **AWAY FROM THE KNOTS** the second and the third derivative are the
    derivatives of those before them. -/
theorem hasDerivAt_continued_off {x : ℝ}
    (off : ∀ i : Fin (c.inner + 2), (c.knots.get i).x ≠ x) :
    HasDerivAt (c.continued .first) (c.continued .second x) x
      ∧ HasDerivAt (c.continued .second) (c.continued .third x) x := by
  obtain ⟨f, heq, hsecond, hthird⟩ := asc.exists_locallyAt off
  rw [(heq .second).eq_of_nhds, (heq .third).eq_of_nhds]
  exact ⟨hsecond.congr_of_eventuallyEq (heq .first),
    hthird.congr_of_eventuallyEq (heq .second)⟩

end Ascending

/-- **A CURVE AND ITS DERIVATIVES**: asked with its continuations, a curve with
    ascending knots answers everywhere, for each order a function.  The first
    of these is the derivative of the value everywhere, and continuous; each
    further one is that of the one before it where there is no knot. -/
theorem eval_derivatives (c : Curve ℝ) (asc : c.Ascending) :
    ∃ f : Order → ℝ → ℝ,
      (∀ order x, c.eval order true x = .ok (f order x))
        ∧ (∀ x, HasDerivAt (f .value) (f .first x) x)
        ∧ Continuous (f .first)
        ∧ ∀ x, (∀ i : Fin (c.inner + 2), (c.knots.get i).x ≠ x) →
          HasDerivAt (f .first) (f .second x) x
            ∧ HasDerivAt (f .second) (f .third x) x := by
  refine ⟨c.continued, c.eval_true, asc.hasDerivAt_continued,
    asc.continuous_continued_first, ?_⟩
  intro x off
  exact asc.hasDerivAt_continued_off off

open Scalar in
/-- Its curvature jumps at the inner knot. -/
def bent {α : Type} [Scalar α] : Curve α where
  family := .monotonic
  inner := 1
  knots := #v[⟨0, 0, 1⟩, ⟨1, 2, -1⟩, ⟨3, 1, 0⟩]

theorem ascending_bent : (bent : Curve ℝ).Ascending := by
  refine sorted_of_pairwise ?_
  show [(⟨0, 0, 1⟩ : Knot ℝ), ⟨1, 2, -1⟩, ⟨3, 1, 0⟩].Pairwise _
  simp

/-- At the inner knot the curve falls, with the slope of the knot; between the
    last two knots its slope has a derivative. -/
theorem eval_derivatives_bent :
    (bent : Curve ℝ).Ascending
      ∧ (∀ i : Fin 3, ((bent : Curve ℝ).knots.get i).x ≠ 2)
      ∧ ∃ f : Order → ℝ → ℝ,
        (∀ order x, (bent : Curve ℝ).eval order true x = .ok (f order x))
          ∧ HasDerivAt (f .value) (-1) 1
          ∧ HasDerivAt (f .first) (f .second 2) 2 := by
  have off : ∀ i : Fin 3, ((bent : Curve ℝ).knots.get i).x ≠ 2 := by
    have h : (0 : ℝ) ≠ 2 ∧ (1 : ℝ) ≠ 2 ∧ (3 : ℝ) ≠ 2 := by norm_num
    intro i
    fin_cases i
    · exact h.1
    · exact h.2.1
    · exact h.2.2
  obtain ⟨f, hf, hslope, -, hoff⟩ := eval_derivatives bent ascending_bent
  have hknot : f .first 1 = -1 := by
    have hmin : (bent : Curve ℝ).xMin ≤ 1 := zero_le_one
    have hmax : (1 : ℝ) ≤ (bent : Curve ℝ).xMax :=
      (ascending_bent.lt (Nat.lt_succ_self 1) (by decide)).le
    have hone := hf .first 1
    rw [eval_eq_inside hmin hmax] at hone
    exact (Except.ok.inj hone).symm.trans
      (ascending_bent.inside_knot (1 : Fin 3)).2
  refine ⟨ascending_bent, off, f, hf, ?_, (hoff 2 off).1⟩
  rw [← hknot]
  exact hslope 1

end Curve

end PiecewiseCubic
