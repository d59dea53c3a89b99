import PiecewiseCubic.Proofs.Curve.Derivative
import PiecewiseCubic.Proofs.Polynomial.Roots
import PiecewiseCubic.Curve.Trend

/-! # The monotonicity of one piece

    A direction is only answered for a part of a segment whose slope has that
    sign at the place that is looked at and does not change it between the
    two margins; a mixed part has a simple root inside, where the slope
    changes its sign.  So what is answered for the part holds of its slope,
    and likewise for a straight line. -/

namespace PiecewiseCubic

open Set

namespace Monotonicity

/-! ## A slope -/

section Slope

variable {slope tol : ℝ}

theorem ofSign_of_pos (h : 0 < slope) : ofSign slope = .increasing := if_pos h

theorem ofSign_of_nonpos (h : slope ≤ 0) : ofSign slope = .decreasing :=
  if_neg h.not_gt

/-- A direction tells whether the slope is positive. -/
theorem code_ofSign (slope : ℝ) :
    (ofSign slope).code = if 0 < slope then 1 else -1 := by
  split_ifs with hrises
  · rw [ofSign_of_pos hrises]
    rfl
  · rw [ofSign_of_nonpos (not_lt.mp hrises)]
    rfl

theorem ofSlope_of_le (h : |slope| ≤ tol) : ofSlope slope tol = .constant :=
  if_pos h

/-- Beyond the tolerance a line has the direction of its sign. -/
theorem ofSlope_of_lt (h : tol < |slope|) :
    ofSlope slope tol = ofSign slope := if_neg h.not_ge

end Slope

/-! ## A function on an interval -/

/-- What a monotonicity says about the slope on a part of the line: a mixed
    one that it takes both signs there, a direction that it takes this sign
    there and does not take the other one on the core. -/
def Verdict (f : ℝ → ℝ) (part core : Set ℝ) (flat : Prop) :
    Monotonicity → Prop
  | .constant => flat
  | .mixed => (∃ x ∈ part, 0 < f x) ∧ ∃ x ∈ part, f x < 0
  | .increasing => (∃ x ∈ part, 0 < f x) ∧ ∀ x ∈ core, 0 ≤ f x
  | .decreasing => (∃ x ∈ part, f x < 0) ∧ ∀ x ∈ core, f x ≤ 0

section Verdict

variable {f : ℝ → ℝ} {part core : Set ℝ} {flat : Prop}

/-- A verdict on a function is one on another that takes its values, at
    places of a larger part and of a smaller core. -/
theorem Verdict.transfer {m : Monotonicity} {g : ℝ → ℝ}
    {part' core' : Set ℝ} (h : m.Verdict f part core flat) (u v : ℝ → ℝ)
    (hpart : ∀ x ∈ part, u x ∈ part' ∧ g (u x) = f x)
    (hcore : ∀ x ∈ core', v x ∈ core ∧ g x = f (v x)) :
    m.Verdict g part' core' flat := by
  have hpos : (∃ x ∈ part, 0 < f x) → ∃ x ∈ part', 0 < g x :=
    fun ⟨x, hx, hf⟩ => ⟨u x, (hpart x hx).1, hf.trans_eq (hpart x hx).2.symm⟩
  have hneg : (∃ x ∈ part, f x < 0) → ∃ x ∈ part', g x < 0 :=
    fun ⟨x, hx, hf⟩ => ⟨u x, (hpart x hx).1, (hpart x hx).2.trans_lt hf⟩
  cases m with
  | constant => exact h
  | mixed => exact ⟨hpos h.1, hneg h.2⟩
  | increasing =>
      exact ⟨hpos h.1, fun x hx =>
        (h.2 _ (hcore x hx).1).trans_eq (hcore x hx).2.symm⟩
  | decreasing =>
      exact ⟨hneg h.1, fun x hx =>
        (hcore x hx).2.trans_le (h.2 _ (hcore x hx).1)⟩

/-- The sign at a place is that of the function, if it is kept on the core. -/
theorem verdict_ofSign {x : ℝ} (hx : x ∈ part) (hne : f x ≠ 0)
    (keeps : ∀ z ∈ core, 0 ≤ f x * f z) :
    (ofSign (f x)).Verdict f part core flat := by
  rcases hne.lt_or_gt with hneg | hpos
  · rw [ofSign_of_nonpos hneg.le]
    exact ⟨⟨x, hx, hneg⟩, fun z hz =>
      nonpos_of_mul_nonneg_right (keeps z hz) hneg⟩
  · rw [ofSign_of_pos hpos]
    exact ⟨⟨x, hx, hpos⟩, fun z hz =>
      nonneg_of_mul_nonneg_right (keeps z hz) hpos⟩

/-- The verdict on a straight line. -/
theorem verdict_ofSlope {slope tol : ℝ} (htol : 0 ≤ tol) {x : ℝ}
    (hx : x ∈ part) (hpart : ∀ z ∈ part, f z = slope)
    (hcore : core ⊆ part) :
    (ofSlope slope tol).Verdict f part core (|slope| ≤ tol) := by
  rcases le_or_gt |slope| tol with hsmall | hsteep
  · rw [ofSlope_of_le hsmall]
    exact hsmall
  · have hne : slope ≠ 0 := abs_pos.mp (htol.trans_lt hsteep)
    rw [ofSlope_of_lt hsteep, ← hpart x hx]
    rw [← hpart x hx] at hne
    refine verdict_ofSign hx hne fun z hz => ?_
    rw [hpart z (hcore hz), hpart x hx]
    exact mul_self_nonneg slope

end Verdict

end Monotonicity

/-! ## One quadratic -/

namespace Segment

open Monotonicity

variable {sigma a b c s₀ s₁ : ℝ}

/-- The derivative `a * s ^ 2 + b * s + c`. -/
def slopeAt (a b c s : ℝ) : ℝ := (a * s + b) * s + c

/-- Inside an interval where a quadratic keeps its sign it has no simple
    root. -/
theorem double_root (hs : sigma ≠ 0)
    (h : ∀ s, s₀ ≤ s → s ≤ s₁ → 0 ≤ sigma * slopeAt a b c s) {r : ℝ}
    (h₀ : s₀ < r) (h₁ : r < s₁) (hroot : slopeAt a b c r = 0) :
    2 * a * r + b = 0 := by
  have hderiv : HasDerivAt (fun s => sigma * slopeAt a b c s)
      (sigma * (2 * a * r + b)) r := by
    have hinner := ((hasDerivAt_id' r).const_mul a).add_const b
    have houter := ((hinner.mul (hasDerivAt_id' r)).add_const c).const_mul
      sigma
    refine houter.congr_deriv ?_
    ring
  have hmin : IsLocalMin (fun s => sigma * slopeAt a b c s) r := by
    filter_upwards [Ioo_mem_nhds h₀ h₁] with s hs
    rw [hroot, mul_zero]
    exact h s hs.1.le hs.2.le
  exact (mul_eq_zero.mp (hmin.hasDerivAt_eq_zero hderiv)).resolve_left hs

theorem exists_mem_of_hasRootInside {roots : List ℝ} (hs : s₀ ≤ s₁)
    (h : hasRootInside s₀ s₁ roots = true) :
    ∃ r ∈ roots, s₀ < r ∧ r < s₁ := by
  obtain ⟨r, hr, hinside⟩ := List.any_eq_true.mp h
  rw [Bool.and_eq_true, decide_eq_true_eq, decide_eq_true_eq] at hinside
  have hmargin : (0 : ℝ) ≤ rootMargin * (s₁ - s₀) := by
    refine mul_nonneg ?_ (sub_nonneg.mpr hs)
    show (0 : ℝ) ≤ 1e-10
    norm_num
  exact ⟨r, hr, by linarith [hinside.1], by linarith [hinside.2]⟩

/-- The direction in the middle, unless there is a root inside. -/
noncomputable def byRoots (a b c s₀ s₁ : ℝ) (roots : List ℝ) : Monotonicity :=
  if hasRootInside s₀ s₁ roots then .mixed
  else .ofSign (slopeAt a b c ((s₀ + s₁) / 2))

theorem trendOfSlope_eq :
    trendOfSlope a b c s₀ s₁
      = if |a| < negligible ∧ |b| < negligible ∧ |c| < negligible then
          .constant
        else if a = 0 then byRoots a b c s₀ s₁ (Roots.linear b c)
        else if b * b - 4 * a * c < 0 then
          .ofSign (slopeAt a b c ((s₀ + s₁) / 2))
        else if b * b - 4 * a * c = 0 then
          if -b / (2 * a) = s₀ then .ofSign (slopeAt a b c s₁)
          else .ofSign (slopeAt a b c s₀)
        else byRoots a b c s₀ s₁ (Roots.quadratic a b c) := by
  simp only [trendOfSlope, beq_iff_eq]
  rfl

/-- What a discriminant says about the slope at a root. -/
theorem double_root_sq {r : ℝ} (hroot : slopeAt a b c r = 0) :
    (2 * a * r + b) ^ 2 = b * b - 4 * a * c := by
  rw [slopeAt] at hroot
  linear_combination 4 * a * hroot

theorem negligible_pos : (0 : ℝ) < negligible := by
  show (0 : ℝ) < 1e-20
  norm_num

theorem continuous_slopeAt : Continuous (slopeAt a b c) := by
  unfold slopeAt
  fun_prop

/-- **WITHOUT A ROOT INSIDE** an interval the slope keeps its sign, up to the
    ends. -/
theorem keeps_sign {p q m : ℝ} (hm : m ∈ Ioo p q)
    (hroots : ∀ r ∈ Ioo p q, slopeAt a b c r ≠ 0) :
    ∀ z ∈ Icc p q, 0 ≤ slopeAt a b c m * slopeAt a b c z := by
  intro z hz
  by_contra hneg
  -- otherwise there is a root between the two places, which is inside
  have hzero : (0 : ℝ) ∈ uIcc (slopeAt a b c m) (slopeAt a b c z) := by
    rcases mul_neg_iff.mp (not_le.mp hneg) with ⟨hpos, hlt⟩ | ⟨hlt, hpos⟩
    · exact mem_uIcc_of_ge hlt.le hpos.le
    · exact mem_uIcc_of_le hlt.le hpos.le
  obtain ⟨r, hr, hroot⟩ :=
    intermediate_value_uIcc continuous_slopeAt.continuousOn hzero
  have hne : r ≠ z := by
    rintro rfl
    rw [hroot, mul_zero] at hneg
    exact hneg (le_refl 0)
  refine hroots r ?_ hroot
  rcases le_total m z with hle | hle
  · rw [uIcc_of_le hle] at hr
    exact ⟨hm.1.trans_le hr.1, (hr.2.lt_of_ne hne).trans_le hz.2⟩
  · rw [uIcc_of_ge hle] at hr
    exact ⟨hz.1.trans_lt (hr.1.lt_of_ne hne.symm), hr.2.trans_lt hm.2⟩

/-- At a simple root inside an interval the slope changes its sign. -/
theorem both_signs {r : ℝ} (hr : r ∈ Ioo s₀ s₁)
    (hroot : slopeAt a b c r = 0) (hsimple : 2 * a * r + b ≠ 0) :
    (∃ s ∈ Icc s₀ s₁, 0 < slopeAt a b c s)
      ∧ ∃ s ∈ Icc s₀ s₁, slopeAt a b c s < 0 := by
  constructor
  · by_contra! hnone
    refine hsimple (double_root (show (-1 : ℝ) ≠ 0 by norm_num)
      (fun s h₀ h₁ => ?_) hr.1 hr.2 hroot)
    linarith [hnone s ⟨h₀, h₁⟩]
  · by_contra! hnone
    refine hsimple (double_root (show (1 : ℝ) ≠ 0 from one_ne_zero)
      (fun s h₀ h₁ => ?_) hr.1 hr.2 hroot)
    linarith [hnone s ⟨h₀, h₁⟩]

/-- The part of an interval without its margins. -/
def core (s₀ s₁ : ℝ) : Set ℝ :=
  Icc (s₀ + 1e-10 * (s₁ - s₀)) (s₁ - 1e-10 * (s₁ - s₀))

theorem core_subset (hle : s₀ ≤ s₁) : core s₀ s₁ ⊆ Icc s₀ s₁ := by
  refine Icc_subset_Icc ?_ ?_ <;> linarith

/-- The middle of an interval is away from its margins. -/
theorem middle_mem (hlt : s₀ < s₁) :
    (s₀ + s₁) / 2
      ∈ Ioo (s₀ + 1e-10 * (s₁ - s₀)) (s₁ - 1e-10 * (s₁ - s₀)) := by
  constructor <;> linarith

/-- If none of all roots is inside, there is none away from the margins. -/
theorem slopeAt_ne_zero_of_not_hasRootInside {roots : List ℝ}
    (hroots : ∀ r, r ∈ roots ↔ slopeAt a b c r = 0)
    (hinside : ¬ hasRootInside s₀ s₁ roots = true) {r : ℝ}
    (hr : r ∈ Ioo (s₀ + 1e-10 * (s₁ - s₀)) (s₁ - 1e-10 * (s₁ - s₀))) :
    slopeAt a b c r ≠ 0 := by
  intro hroot
  refine hinside (List.any_eq_true.mpr ⟨r, (hroots r).mpr hroot, ?_⟩)
  rw [Bool.and_eq_true, decide_eq_true_eq, decide_eq_true_eq]
  exact hr

/-- Places with all roots of a quadratic that has no double one decide. -/
theorem verdict_byRoots (hlt : s₀ < s₁) {flat : Prop} {roots : List ℝ}
    (hroots : ∀ r, r ∈ roots ↔ slopeAt a b c r = 0)
    (hsimple : ∀ r, slopeAt a b c r = 0 → 2 * a * r + b ≠ 0) :
    (byRoots a b c s₀ s₁ roots).Verdict (slopeAt a b c) (Icc s₀ s₁)
      (core s₀ s₁) flat := by
  rw [byRoots]
  split_ifs with hinside
  · obtain ⟨r, hr, h₀, h₁⟩ := exists_mem_of_hasRootInside hlt.le hinside
    have hroot := (hroots r).mp hr
    exact both_signs ⟨h₀, h₁⟩ hroot (hsimple r hroot)
  · have hnone : ∀ r ∈ Ioo (s₀ + 1e-10 * (s₁ - s₀)) (s₁ - 1e-10 * (s₁ - s₀)),
        slopeAt a b c r ≠ 0 := fun _ hr =>
      slopeAt_ne_zero_of_not_hasRootInside hroots hinside hr
    have hmiddle := middle_mem hlt
    refine verdict_ofSign ?_ (hnone _ hmiddle) (keeps_sign hmiddle hnone)
    constructor <;> linarith

/-- A quadratic with a double root does not change its sign there. -/
theorem keeps_sign_of_double (ha : a ≠ 0) (hzero : b * b - 4 * a * c = 0)
    (s z : ℝ) : 0 ≤ slopeAt a b c s * slopeAt a b c z := by
  have hsquare : 16 * a ^ 2 * (slopeAt a b c s * slopeAt a b c z)
      = ((2 * a * s + b) * (2 * a * z + b)) ^ 2 := by
    rw [slopeAt, slopeAt]
    linear_combination
      (-4 * a * ((a * s + b) * s + (a * z + b) * z + c) - b ^ 2) * hzero
  have hpos : 0 < 16 * a ^ 2 := by positivity
  exact nonneg_of_mul_nonneg_right (hsquare ▸ sq_nonneg _) hpos

/-- The root of a quadratic that has a double one. -/
theorem eq_of_double (ha : a ≠ 0) (hzero : b * b - 4 * a * c = 0) {r : ℝ}
    (hroot : slopeAt a b c r = 0) : -b / (2 * a) = r := by
  have hsq := double_root_sq hroot
  rw [hzero, sq_eq_zero_iff] at hsq
  rw [div_eq_iff (mul_ne_zero two_ne_zero ha)]
  linarith

/-- Of a quadratic with a double root an end that is not the root decides. -/
theorem verdict_of_double {flat : Prop} {s : ℝ} (hs : s ∈ Icc s₀ s₁)
    (ha : a ≠ 0) (hzero : b * b - 4 * a * c = 0) (hne : -b / (2 * a) ≠ s) :
    (ofSign (slopeAt a b c s)).Verdict (slopeAt a b c) (Icc s₀ s₁)
      (core s₀ s₁) flat :=
  verdict_ofSign hs (fun hroot => hne (eq_of_double ha hzero hroot))
    fun z _ => keeps_sign_of_double ha hzero s z

/-- A quadratic with a negative discriminant has no root. -/
theorem slopeAt_ne_zero_of_neg (hneg : b * b - 4 * a * c < 0) (r : ℝ) :
    slopeAt a b c r ≠ 0 := by
  intro hroot
  rw [← double_root_sq hroot] at hneg
  exact absurd (sq_nonneg _) hneg.not_ge

/-- A quadratic without roots has the sign of its middle. -/
theorem verdict_of_neg (hlt : s₀ < s₁) {flat : Prop}
    (hneg : b * b - 4 * a * c < 0) :
    (ofSign (slopeAt a b c ((s₀ + s₁) / 2))).Verdict (slopeAt a b c)
      (Icc s₀ s₁) (core s₀ s₁) flat := by
  have hnone := slopeAt_ne_zero_of_neg hneg
  have hmiddle : (s₀ + s₁) / 2 ∈ Ioo s₀ s₁ := by
    constructor <;> linarith
  exact verdict_ofSign (Ioo_subset_Icc_self hmiddle) (hnone _) fun z hz =>
    keeps_sign hmiddle (fun r _ => hnone r) z (core_subset hlt.le hz)

/-- A line that does not vanish has a simple root or none. -/
theorem verdict_linear (hlt : s₀ < s₁) {flat : Prop} (hline : b ≠ 0 ∨ c ≠ 0) :
    (byRoots 0 b c s₀ s₁ (Roots.linear b c)).Verdict (slopeAt 0 b c)
      (Icc s₀ s₁) (core s₀ s₁) flat := by
  have hslope : ∀ r, slopeAt 0 b c r = b * r + c := by
    intro r
    rw [slopeAt, zero_mul, zero_add]
  refine verdict_byRoots hlt (fun r => ?_) fun r hroot hdouble => ?_
  · rw [Roots.mem_linear_iff hline, hslope]
  · rw [mul_zero, zero_mul, zero_add] at hdouble
    rw [hslope, hdouble, zero_mul, zero_add] at hroot
    exact hline.elim (fun hb => hb hdouble) fun hc => hc hroot

/-- A quadratic with two roots has simple ones. -/
theorem verdict_quadratic (hlt : s₀ < s₁) {flat : Prop} (ha : a ≠ 0)
    (hne : b * b - 4 * a * c ≠ 0) :
    (byRoots a b c s₀ s₁ (Roots.quadratic a b c)).Verdict (slopeAt a b c)
      (Icc s₀ s₁) (core s₀ s₁) flat := by
  refine verdict_byRoots hlt (fun r => ?_) fun r hroot hdouble => ?_
  · have hslope : slopeAt a b c r = a * r ^ 2 + b * r + c := by
      rw [slopeAt]
      ring
    rw [Roots.mem_quadratic_iff (Or.inl ha), hslope]
  · have hsq := double_root_sq hroot
    rw [hdouble, zero_pow two_ne_zero] at hsq
    exact hne hsq.symm

/-- **ONE QUADRATIC**: what is answered for it holds of it. -/
theorem verdict_trendOfSlope (hlt : s₀ < s₁) :
    (trendOfSlope a b c s₀ s₁).Verdict (slopeAt a b c) (Icc s₀ s₁)
      (core s₀ s₁) (|a| < 1e-20 ∧ |b| < 1e-20 ∧ |c| < 1e-20) := by
  rw [trendOfSlope_eq]
  split_ifs with hsmall ha hneg hzero hfirst
  · exact hsmall
  · subst ha
    refine verdict_linear hlt ?_
    by_contra! hline
    obtain ⟨rfl, rfl⟩ := hline
    have htiny := abs_zero.trans_lt negligible_pos
    exact hsmall ⟨htiny, htiny, htiny⟩
  · exact verdict_of_neg hlt hneg
  · refine verdict_of_double (right_mem_Icc.mpr hlt.le) ha hzero ?_
    rw [hfirst]
    exact hlt.ne
  · exact verdict_of_double (left_mem_Icc.mpr hlt.le) ha hzero hfirst
  · exact verdict_quadratic hlt ha hzero

/-- **A PART OF A SEGMENT**: what is answered for it holds of the slope. -/
theorem verdict_trend (s : Segment ℝ) (hw : s.width ≠ 0) {x₀ x₁ : ℝ}
    (hlt : x₀ < x₁) :
    (s.trend x₀ x₁).Verdict (s.eval .first) (Icc x₀ x₁) (core x₀ x₁)
      (|3 * s.localCubic.a| < 1e-20 ∧ |2 * s.localCubic.b| < 1e-20
        ∧ |s.localCubic.c| < 1e-20) := by
  have hslope : ∀ x, s.eval .first x
      = slopeAt (3 * s.localCubic.a) (2 * s.localCubic.b) s.localCubic.c
        (x - s.left.x) :=
    s.eval_first_eq_localCubic hw
  have hlocal : (s.trend x₀ x₁).Verdict _ _ _ _ := verdict_trendOfSlope
    (sub_lt_sub_right hlt s.left.x)
  refine hlocal.transfer (· + s.left.x) (· - s.left.x) (fun x hx => ?_)
    fun x hx => ?_
  · refine ⟨⟨by linarith [hx.1], by linarith [hx.2]⟩, ?_⟩
    rw [hslope, add_sub_cancel_right]
    rfl
  · refine ⟨⟨?_, ?_⟩, hslope x⟩
    · linarith [hx.1]
    · linarith [hx.2]

end Segment

end PiecewiseCubic
