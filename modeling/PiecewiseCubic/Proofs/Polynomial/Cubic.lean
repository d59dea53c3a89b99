import PiecewiseCubic.Proofs.Polynomial.Roots

/-! # Roots of a cubic over the reals

    In each form of the depressed cubic the numbers that are answered make it
    a product of lines, or of a line and a quadratic without roots.  So they
    are its roots, and there are no others.  A root stays where it is under
    Newton's steps, and sorting loses none. -/

namespace PiecewiseCubic

/-- All coefficients are zero. -/
def Cubic.Vanishes (p : Cubic ℝ) : Prop :=
  p.a = 0 ∧ p.b = 0 ∧ p.c = 0 ∧ p.d = 0

/-- The value of a polynomial in powers of the position. -/
theorem Cubic.eval_eq (p : Cubic ℝ) (x : ℝ) :
    p.eval x = p.a * x ^ 3 + p.b * x ^ 2 + p.c * x + p.d := by
  show ((p.a * x + p.b) * x + p.c) * x + p.d = _
  ring

namespace Roots

variable {a b c d p q t x : ℝ}

/-! ## Cube roots -/

theorem cbrt_pow_three (x : ℝ) : (Scalar.cbrt x : ℝ) ^ 3 = x := by
  have hpow : ∀ {y : ℝ}, 0 ≤ y → (y ^ (1 / 3 : ℝ)) ^ 3 = y := by
    intro y hy
    have h := Real.rpow_inv_natCast_pow hy three_ne_zero
    rwa [Nat.cast_ofNat, ← one_div] at h
  show (if x < 0 then -(-x) ^ (1 / 3 : ℝ) else x ^ (1 / 3 : ℝ)) ^ 3 = x
  split_ifs with hx
  · rw [Odd.neg_pow (by decide), hpow (neg_nonneg.mpr hx.le), neg_neg]
  · exact hpow (not_lt.mp hx)

theorem pow_three_injective : Function.Injective fun y : ℝ => y ^ 3 :=
  (Odd.strictMono_pow (by decide)).injective

/-- The cube root is the only number with that cube. -/
theorem eq_cbrt_iff : t = Scalar.cbrt x ↔ t ^ 3 = x := by
  constructor
  · rintro rfl
    exact cbrt_pow_three x
  · intro h
    exact pow_three_injective (h.trans (cbrt_pow_three x).symm)

/-! ## One real root -/

/-- A depressed cubic whose coefficients are those of two different numbers
    has the sum of both as its only root. -/
theorem eq_add_iff {u v : ℝ} (hne : u ≠ v) :
    t = u + v ↔ t ^ 3 - 3 * (u * v) * t - (u ^ 3 + v ^ 3) = 0 := by
  have hfactor : t ^ 3 - 3 * (u * v) * t - (u ^ 3 + v ^ 3)
      = (t - (u + v)) * ((t + (u + v) / 2) ^ 2 + 3 / 4 * (u - v) ^ 2) := by
    ring
  have hpos : 0 < (t + (u + v) / 2) ^ 2 + 3 / 4 * (u - v) ^ 2 := by
    have := sub_ne_zero.mpr hne
    positivity
  rw [hfactor, mul_eq_zero_iff_right hpos.ne', sub_eq_zero]

/-- **CARDANO'S FORMULA** answers the only root. -/
theorem eq_cardano_iff (hw : 0 < q * q / 4 + p ^ 3 / 27) :
    t = Scalar.cbrt (-q / 2 + √(q * q / 4 + p ^ 3 / 27))
        + Scalar.cbrt (-q / 2 - √(q * q / 4 + p ^ 3 / 27))
      ↔ t ^ 3 + p * t + q = 0 := by
  have hsqrt := Real.sqrt_pos.mpr hw
  have hsq := Real.sq_sqrt hw.le
  have hu := cbrt_pow_three (-q / 2 + √(q * q / 4 + p ^ 3 / 27))
  have hv := cbrt_pow_three (-q / 2 - √(q * q / 4 + p ^ 3 / 27))
  generalize √(q * q / 4 + p ^ 3 / 27) = s at hsqrt hsq hu hv ⊢
  generalize Scalar.cbrt (-q / 2 + s) = u at hu ⊢
  generalize Scalar.cbrt (-q / 2 - s) = v at hv ⊢
  have hne : u ≠ v := by
    rintro rfl
    linarith
  -- both sides have the same cube
  have hprod : u * v = -p / 3 := by
    refine pow_three_injective ?_
    show (u * v) ^ 3 = (-p / 3) ^ 3
    rw [mul_pow, hu, hv]
    linear_combination -hsq
  have hsum : u ^ 3 + v ^ 3 = -q := by
    rw [hu, hv]
    ring
  rw [eq_add_iff hne, hprod, hsum]
  constructor <;> intro h <;> linear_combination h

/-! ## A double root -/

/-- **A SIMPLE AND A DOUBLE ROOT** are the roots of a depressed cubic without
    discriminant. -/
theorem eq_double_iff (hp : p ≠ 0) (hw : q * q / 4 + p ^ 3 / 27 = 0) :
    t = 3 * q / p ∨ t = -3 * q / (2 * p) ↔ t ^ 3 + p * t + q = 0 := by
  obtain ⟨r, hr⟩ : ∃ r, r = -3 * q / (2 * p) := ⟨_, rfl⟩
  have hsimple : 3 * q / p = -2 * r := by
    rw [hr]
    field_simp
  have hrp : 2 * p * r = -3 * q := by
    rw [hr, mul_div_cancel₀ _ (mul_ne_zero two_ne_zero hp)]
  -- the double root tells both coefficients
  have hpr : p = -3 * r ^ 2 := by
    have hp2 : p ^ 2 * (p + 3 * r ^ 2) = 0 := by
      linear_combination 27 * hw + (3 / 4 * (2 * p * r - 3 * q)) * hrp
    have h := (mul_eq_zero.mp hp2).resolve_left (pow_ne_zero 2 hp)
    linear_combination h
  have hqr : q = 2 * r ^ 3 := by
    linear_combination (1 / 3) * hrp - (2 / 3 * r) * hpr
  have hfactor : t ^ 3 + p * t + q = (t + 2 * r) * (t - r) ^ 2 := by
    rw [hpr, hqr]
    ring
  rw [← hr, hsimple, hfactor, mul_eq_zero, sq_eq_zero_iff, sub_eq_zero]
  refine or_congr_left ?_
  constructor <;> intro h <;> linear_combination h

/-! ## Three real roots -/

theorem cos_sub_third (phi : ℝ) :
    Real.cos (phi - 2 * Real.pi * 1 / 3)
      = -(Real.cos phi) / 2 + Real.sin phi * (√3 / 2) := by
  have hangle : 2 * Real.pi * 1 / 3 = Real.pi - Real.pi / 3 := by ring
  rw [Real.cos_sub, hangle, Real.cos_pi_sub, Real.sin_pi_sub,
    Real.cos_pi_div_three, Real.sin_pi_div_three]
  ring

theorem cos_sub_two_thirds (phi : ℝ) :
    Real.cos (phi - 2 * Real.pi * 2 / 3)
      = -(Real.cos phi) / 2 - Real.sin phi * (√3 / 2) := by
  have hangle : 2 * Real.pi * 2 / 3 = Real.pi / 3 + Real.pi := by ring
  rw [Real.cos_sub, hangle, Real.cos_add_pi, Real.sin_add_pi,
    Real.cos_pi_div_three, Real.sin_pi_div_three]
  ring

/-- Three points of a circle a third of a turn apart are the roots of the
    cubic with the tripled angle. -/
theorem eq_thirds_iff {rho phi : ℝ} :
    t = 2 * rho * Real.cos phi
      ∨ t = 2 * rho * Real.cos (phi - 2 * Real.pi * 1 / 3)
      ∨ t = 2 * rho * Real.cos (phi - 2 * Real.pi * 2 / 3)
      ↔ t ^ 3 - 3 * rho ^ 2 * t - 2 * rho ^ 3 * Real.cos (3 * phi) = 0 := by
  have hthree : (√3 : ℝ) ^ 2 = 3 := Real.sq_sqrt three_pos.le
  have hfactor : t ^ 3 - 3 * rho ^ 2 * t - 2 * rho ^ 3 * Real.cos (3 * phi)
      = (t - 2 * rho * Real.cos phi)
        * ((t - 2 * rho * Real.cos (phi - 2 * Real.pi * 1 / 3))
          * (t - 2 * rho * Real.cos (phi - 2 * Real.pi * 2 / 3))) := by
    rw [cos_sub_third, cos_sub_two_thirds, Real.cos_three_mul]
    linear_combination
      (rho ^ 2 * Real.sin phi ^ 2 * (t - 2 * rho * Real.cos phi)) * hthree
        + 3 * rho ^ 2 * (t - 2 * rho * Real.cos phi)
          * Real.sin_sq_add_cos_sq phi
  rw [hfactor, mul_eq_zero, mul_eq_zero, sub_eq_zero, sub_eq_zero,
    sub_eq_zero]

open Scalar in
/-- The angle of the largest root. -/
def largestAngle {α : Type} [Scalar α] (p q : α) : α :=
  acos (clamp (tripleAngleCosine p q (sqrt (-3 / p))) (-1) 1) / 3

open Scalar in
/-- The cosine of the angle that is so many thirds of a turn further back,
    scaled to a root. -/
def thirdRoot {α : Type} [Scalar α] (p q : α) (k : ℕ) : α :=
  2 * sqrt (-p / 3) * cos (largestAngle p q - 2 * pi * Scalar.ofNat k / 3)

open Scalar in
/-- Unless a square root is refused, three roots are answered. -/
theorem trigonometric_eq {α : Type} [Scalar α] {p q : α}
    (hradius : ¬ -p / 3 < 0) (hscale : ¬ -3 / p < 0) :
    trigonometric p q = .ok ([0, 1, 2].map (thirdRoot p q)) := by
  rw [trigonometric, squareRoot, if_neg hradius, squareRoot, if_neg hscale]
  rfl

/-- Three different roots need a falling middle part. -/
theorem neg_of_discriminant_neg (hw : q * q / 4 + p ^ 3 / 27 < 0) : p < 0 := by
  by_contra hp
  have := pow_nonneg (not_lt.mp hp) 3
  nlinarith [mul_self_nonneg q]

theorem neg_three_div_nonneg (hp : p < 0) : 0 ≤ -3 / p :=
  div_nonneg_of_nonpos (by norm_num) hp.le

theorem tripleAngleCosine_eq (q : ℝ) (hp : p < 0) :
    tripleAngleCosine p q √(-3 / p) = -q / (2 * √(-p / 3) ^ 3) := by
  have hpos : 0 < -p / 3 := by linarith
  have hrho := Real.sqrt_pos.mpr hpos
  have hsq := Real.sq_sqrt hpos.le
  have hscale : √(-3 / p) = (√(-p / 3))⁻¹ := by
    rw [← Real.sqrt_inv, inv_div, neg_div, div_neg]
  rw [hscale]
  generalize √(-p / 3) = rho at hrho hsq ⊢
  show 3 * q / (2 * p) * rho⁻¹ = -q / (2 * rho ^ 3)
  have hp' : p = -3 * rho ^ 2 := by linarith
  rw [hp']
  field_simp

/-- **THE COSINE** that is asked for is one: the discriminant keeps it within
    its bounds. -/
theorem abs_tripleAngleCosine_lt (hw : q * q / 4 + p ^ 3 / 27 < 0) :
    |tripleAngleCosine p q √(-3 / p)| < 1 := by
  have hp := neg_of_discriminant_neg hw
  have hpos : 0 < -p / 3 := by linarith
  have hrho := Real.sqrt_pos.mpr hpos
  have hsq := Real.sq_sqrt hpos.le
  rw [tripleAngleCosine_eq q hp]
  generalize √(-p / 3) = rho at hrho hsq ⊢
  have hden : 0 < 2 * rho ^ 3 := by positivity
  have hbound : |-q| < 2 * rho ^ 3 := by
    refine abs_lt_of_sq_lt_sq ?_ hden.le
    have hpow : (2 * rho ^ 3) ^ 2 = 4 * (rho ^ 2) ^ 3 := by ring
    rw [hpow, hsq]
    linarith
  rwa [abs_div, abs_of_pos hden, div_lt_one hden]

/-- The clamp leaves the cosine as it is. -/
theorem clamp_tripleAngleCosine (hw : q * q / 4 + p ^ 3 / 27 < 0) :
    Scalar.clamp (tripleAngleCosine p q √(-3 / p)) (-1) 1
      = tripleAngleCosine p q √(-3 / p) := by
  obtain ⟨hlow, hhigh⟩ := abs_lt.mp (abs_tripleAngleCosine_lt hw)
  exact Exact.clamp_eq hlow.le hhigh.le

/-- Three times the angle has the cosine that was asked for. -/
theorem cos_three_largestAngle (hw : q * q / 4 + p ^ 3 / 27 < 0) :
    2 * √(-p / 3) ^ 3 * Real.cos (3 * largestAngle p q) = -q := by
  have hp := neg_of_discriminant_neg hw
  have hden : 2 * √(-p / 3) ^ 3 ≠ 0 := by
    have := Real.sqrt_pos.mpr (show 0 < -p / 3 by linarith)
    positivity
  obtain ⟨hlow, hhigh⟩ := abs_lt.mp (abs_tripleAngleCosine_lt hw)
  have hangle : 3 * largestAngle p q
      = Real.arccos (tripleAngleCosine p q √(-3 / p)) := by
    show 3 * (Real.arccos
      (Scalar.clamp (tripleAngleCosine p q √(-3 / p)) (-1) 1) / 3) = _
    rw [clamp_tripleAngleCosine hw, mul_div_cancel₀ _ three_ne_zero]
  rw [hangle, Real.cos_arccos hlow.le hhigh.le, tripleAngleCosine_eq q hp,
    mul_div_cancel₀ _ hden]

/-- **THE TRIGONOMETRIC FORM** answers all three roots. -/
theorem exists_trigonometric (hw : q * q / 4 + p ^ 3 / 27 < 0) :
    ∃ ts, trigonometric p q = .ok ts
      ∧ ∀ t, t ∈ ts ↔ t ^ 3 + p * t + q = 0 := by
  have hp := neg_of_discriminant_neg hw
  have hsq : √(-p / 3) ^ 2 = -p / 3 := Real.sq_sqrt (by linarith)
  have hradius : ¬ -p / 3 < 0 := not_lt.mpr (by linarith)
  have hscale : ¬ -3 / p < 0 := not_lt.mpr (neg_three_div_nonneg hp)
  have hfirst : thirdRoot p q 0
      = 2 * √(-p / 3) * Real.cos (largestAngle p q) := by
    show 2 * √(-p / 3) * Real.cos (largestAngle p q - 2 * Real.pi * 0 / 3) = _
    rw [mul_zero, zero_div, sub_zero]
  refine ⟨_, trigonometric_eq hradius hscale, fun t => ?_⟩
  rw [List.map_cons, hfirst]
  refine (List.mem_cons.trans (or_congr_right List.mem_pair)).trans ?_
  refine eq_thirds_iff.trans ?_
  rw [cos_three_largestAngle hw, hsq]
  constructor <;> intro h <;> linear_combination h

/-! ## All forms -/

theorem depressed_eq (p q w : ℝ) :
    depressed p q w
      = if p = 0 then .ok [Scalar.cbrt (-q)]
        else if 0 < w then
          .ok [Scalar.cbrt (-q / 2 + √w) + Scalar.cbrt (-q / 2 - √w)]
        else if w = 0 then .ok [3 * q / p, -3 * q / (2 * p)]
        else trigonometric p q := by
  simp only [depressed, beq_iff_eq]
  rfl

/-- **A DEPRESSED CUBIC** is solved in one of four forms. -/
theorem exists_depressed (p q : ℝ) :
    ∃ ts, depressed p q (q * q / 4 + p ^ 3 / 27) = .ok ts
      ∧ ∀ t, t ∈ ts ↔ t ^ 3 + p * t + q = 0 := by
  rw [depressed_eq]
  split_ifs with hp hpos hzero
  · refine ⟨_, rfl, fun t => ?_⟩
    rw [List.mem_singleton, eq_cbrt_iff, hp]
    constructor <;> intro h <;> linear_combination h
  · exact ⟨_, rfl, fun t => List.mem_singleton.trans (eq_cardano_iff hpos)⟩
  · exact ⟨_, rfl, fun t => List.mem_pair.trans (eq_double_iff hp hzero)⟩
  · exact exists_trigonometric ((not_lt.mp hpos).lt_of_ne hzero)

theorem newton_succ (n : ℕ) (x : ℝ) :
    newton b c d (n + 1) x
      = if (3 * x + 2 * b) * x + c = 0 then x
        else newton b c d n (x - (((x + b) * x + c) * x + d)
          / ((3 * x + 2 * b) * x + c)) :=
  if_congr beq_iff_eq rfl rfl

/-- Newton's steps do not move a root. -/
theorem newton_of_root (n : ℕ) (h : x ^ 3 + b * x ^ 2 + c * x + d = 0) :
    newton b c d n x = x := by
  induction n with
  | zero => rfl
  | succ n ih =>
      have hfx : ((x + b) * x + c) * x + d = 0 := by linear_combination h
      rw [newton_succ, hfx, zero_div, sub_zero, ih, ite_self]

theorem mem_sortAscending {xs : List ℝ} :
    x ∈ Scalar.sortAscending xs ↔ x ∈ xs := by
  have hfold : ∀ sorted : List ℝ, x ∈ xs.foldl
      (fun sorted y => Scalar.insertAscending y sorted) sorted
        ↔ x ∈ sorted ∨ x ∈ xs := by
    induction xs with
    | nil => simp
    | cons y ys ih =>
        intro sorted
        rw [List.foldl_cons, ih, (Scalar.insertAscending_perm y sorted).mem_iff,
          List.mem_cons, List.mem_cons]
        tauto
  exact (hfold []).trans (by simp)

theorem mem_distinctAfter {last : ℝ} {xs : List ℝ} :
    x = last ∨ x ∈ Scalar.distinctAfter last xs ↔ x = last ∨ x ∈ xs := by
  induction xs generalizing last with
  | nil => rfl
  | cons y ys ih =>
      rw [Scalar.distinctAfter]
      split_ifs with hy
      · rw [beq_iff_eq] at hy
        rw [ih, hy, List.mem_cons]
        tauto
      · rw [List.mem_cons, ih, List.mem_cons]

theorem mem_distinct {xs : List ℝ} : x ∈ Scalar.distinct xs ↔ x ∈ xs := by
  cases xs with
  | nil => rfl
  | cons y ys =>
      rw [Scalar.distinct, List.mem_cons, mem_distinctAfter, List.mem_cons]

theorem cube_eq (o : Overflow) (x : ℝ) : cube o x = .ok (x ^ 3) :=
  if_neg fun h => nomatch (show true = false from h.2.2)

open Scalar in
/-- What is made of the roots of the depressed cubic: they are moved back,
    polished and put in order. -/
def settle {α : Type} [Scalar α] (b c d : α) (ts : List α) : List α :=
  distinct (sortAscending
    (ts.map fun t => newton b c d polishSteps (t - b / 3)))

open Scalar in
/-- If no power overflows, all is left to the depressed cubic. -/
theorem monic_eq {α : Type} [Scalar α] {o : Overflow}
    {b c d b3 p p3 q w : α} (hb : cube o b = .ok b3)
    (hp : c - b * b / 3 = p) (hp3 : cube o p = .ok p3)
    (hq : 2 * b3 / 27 - b * c / 3 + d = q) (hw : q * q / 4 + p3 / 27 = w) :
    monic o b c d = (depressed p q w).map (settle b c d) := by
  subst hp hq hw
  show (cube o b >>= fun b3 => cube o (c - b * b / 3) >>= fun p3 => _) = _
  rw [hb, hp3]
  show (depressed _ _ _ >>= fun ts => pure (settle b c d ts)) = _
  cases depressed (c - b * b / 3) _ _ with
  | ok ts => rfl
  | error fault => rfl

theorem mem_settle {ts : List ℝ} :
    x ∈ settle b c d ts
      ↔ ∃ t ∈ ts, newton b c d polishSteps (t - b / 3) = x :=
  mem_distinct.trans (mem_sortAscending.trans List.mem_map)

theorem exists_settle (o : Overflow) (b c d : ℝ) :
    ∃ ts, monic o b c d = .ok (settle b c d ts)
      ∧ ∀ t, t ∈ ts ↔ t ^ 3 + (c - b * b / 3) * t
        + (2 * b ^ 3 / 27 - b * c / 3 + d) = 0 := by
  obtain ⟨ts, hts, hmem⟩ := exists_depressed (c - b * b / 3)
    (2 * b ^ 3 / 27 - b * c / 3 + d)
  exact ⟨ts, (monic_eq (cube_eq o b) rfl (cube_eq o _) rfl rfl).trans
    (congrArg (Except.map (settle b c d)) hts), hmem⟩

/-- **A CUBIC IN NORMAL FORM** is solved. -/
theorem exists_monic (o : Overflow) (b c d : ℝ) :
    ∃ roots, monic o b c d = .ok roots
      ∧ ∀ x, x ∈ roots ↔ x ^ 3 + b * x ^ 2 + c * x + d = 0 := by
  obtain ⟨ts, hmonic, hmem⟩ := exists_settle o b c d
  -- a root of the depressed cubic is one of the other, moved
  have hmove : ∀ x, (x + b / 3) ^ 3 + (c - b * b / 3) * (x + b / 3)
      + (2 * b ^ 3 / 27 - b * c / 3 + d) = x ^ 3 + b * x ^ 2 + c * x + d := by
    intro x
    ring
  refine ⟨_, hmonic, fun x => ?_⟩
  rw [mem_settle]
  constructor
  · rintro ⟨t, ht, rfl⟩
    rw [hmem, ← sub_add_cancel t (b / 3), hmove] at ht
    rwa [newton_of_root _ ht]
  · intro hx
    refine ⟨x + b / 3, ?_, ?_⟩
    · rw [hmem, hmove, hx]
    · rw [add_sub_cancel_right, newton_of_root _ hx]

theorem cubic_zero (o : Overflow) : cubic o 0 b c d = .ok (quadratic b c d) :=
  if_pos (beq_self_eq_true 0)

theorem cubic_of_ne (o : Overflow) (ha : a ≠ 0) :
    cubic o a b c d = monic o (b / a) (c / a) (d / a) :=
  if_neg (by rw [beq_iff_eq]; exact ha)

/-- **ALL ROOTS OF A CUBIC** are answered; the polynomial that vanishes has
    none that are isolated. -/
theorem exists_cubic (o : Overflow) (P : Cubic ℝ) :
    ∃ roots, cubic o P.a P.b P.c P.d = .ok roots
      ∧ ∀ x, x ∈ roots ↔ ¬ P.Vanishes ∧ P.eval x = 0 := by
  obtain ⟨a, b, c, d⟩ := P
  rcases eq_or_ne a 0 with rfl | ha
  · refine ⟨quadratic b c d, cubic_zero o, fun x => ?_⟩
    by_cases hzero : (Cubic.mk 0 b c d).Vanishes
    · obtain ⟨-, rfl, rfl, rfl⟩ := hzero
      rw [quadratic_zero, linear_zero]
      exact iff_of_false List.not_mem_nil fun h => h.1 ⟨rfl, rfl, rfl, rfl⟩
    · have hne : b ≠ 0 ∨ c ≠ 0 ∨ d ≠ 0 := by
        by_contra h
        simp only [not_or, not_not] at h
        exact hzero ⟨rfl, h⟩
      rw [mem_quadratic_iff hne, Cubic.eval_eq, zero_mul, zero_add]
      exact (and_iff_right hzero).symm
  · obtain ⟨roots, hroots, hmem⟩ := exists_monic o (b / a) (c / a) (d / a)
    refine ⟨roots, (cubic_of_ne o ha).trans hroots, fun x => ?_⟩
    have hscale : a * x ^ 3 + b * x ^ 2 + c * x + d
        = a * (x ^ 3 + b / a * x ^ 2 + c / a * x + d / a) := by
      field_simp
    rw [hmem, Cubic.eval_eq, hscale, mul_eq_zero_iff_left ha]
    exact (and_iff_right fun h => ha h.1).symm

end Roots

end PiecewiseCubic
