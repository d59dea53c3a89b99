import PiecewiseCubic.Proofs.Exact
import PiecewiseCubic.Polynomial.Roots

/-! # Roots over the reals

    What the closed forms up to degree two answer are the roots, unless the
    polynomial vanishes.  The quotient that avoids cancellation is one because
    the product of both roots is that of the outer coefficients. -/

namespace PiecewiseCubic.Roots

variable {a b c x : ℝ}

theorem linear_zero : linear 0 b = [] := if_pos (beq_self_eq_true 0)

theorem linear_of_ne (ha : a ≠ 0) : linear a b = [-b / a] :=
  if_neg (by rw [beq_iff_eq]; exact ha)

theorem eval_of_mem_linear (hx : x ∈ linear a b) : a * x + b = 0 := by
  by_cases ha : a = 0
  · rw [ha, linear_zero] at hx
    exact absurd hx List.not_mem_nil
  · rw [linear_of_ne ha, List.mem_singleton] at hx
    rw [hx, mul_div_cancel₀ _ ha, neg_add_cancel]

/-- The sum whose two terms have one sign. -/
noncomputable def stableSum (a b c : ℝ) : ℝ :=
  -0.5 * (b + if b < 0 then -|√(b * b - 4 * a * c)|
    else |√(b * b - 4 * a * c)|)

theorem quadratic_zero : quadratic 0 b c = linear b c :=
  if_pos (beq_self_eq_true 0)

theorem quadratic_of_ne (ha : a ≠ 0) :
    quadratic a b c
      = if b * b - 4 * a * c < 0 then []
        else if b * b - 4 * a * c = 0 then [-b / (2 * a)]
        else ascending (stableSum a b c / a) (c / stableSum a b c) := by
  refine (if_neg (by rw [beq_iff_eq]; exact ha)).trans ?_
  show (if b * b - 4 * a * c < 0 then []
    else if (b * b - 4 * a * c == 0) = true then [-b / (2 * a)]
    else ascending (stableSum a b c / a) (c / stableSum a b c)) = _
  simp only [beq_iff_eq]

theorem stableSum_sq (hdisc : 0 ≤ b * b - 4 * a * c) :
    stableSum a b c ^ 2 + b * stableSum a b c + a * c = 0 := by
  have hsq := Real.mul_self_sqrt hdisc
  rw [stableSum, abs_of_nonneg (Real.sqrt_nonneg _)]
  split_ifs
  · linear_combination hsq / 4
  · linear_combination hsq / 4

theorem stableSum_ne_zero (hdisc : 0 < b * b - 4 * a * c) :
    stableSum a b c ≠ 0 := by
  have hsqrt := Real.sqrt_pos.mpr hdisc
  rw [stableSum, abs_of_pos hsqrt]
  split_ifs with hb
  · exact mul_ne_zero (by norm_num) (by linarith)
  · exact mul_ne_zero (by norm_num) (by linarith)

theorem mem_ascending {r s : ℝ} : x ∈ ascending r s ↔ x = r ∨ x = s := by
  rw [ascending]
  split_ifs
  · rw [List.mem_pair, or_comm]
  · rw [List.mem_pair]

theorem eval_of_mem_quadratic (hx : x ∈ quadratic a b c) :
    a * x ^ 2 + b * x + c = 0 := by
  by_cases ha : a = 0
  · rw [ha, quadratic_zero] at hx
    rw [ha, zero_mul, zero_add]
    exact eval_of_mem_linear hx
  rw [quadratic_of_ne ha] at hx
  split_ifs at hx with hneg hzero
  · exact absurd hx List.not_mem_nil
  · rw [List.mem_singleton] at hx
    rw [hx]
    field_simp
    linear_combination -hzero
  have hdisc : 0 < b * b - 4 * a * c :=
    (not_lt.mp hneg).lt_of_ne (Ne.symm hzero)
  have hsum := stableSum_sq hdisc.le
  have hne := stableSum_ne_zero hdisc
  rcases mem_ascending.mp hx with rfl | rfl
  · field_simp
    linear_combination hsum
  · field_simp
    linear_combination c * hsum

/-! ## All roots -/

/-- The linear polynomial has no roots but those that are answered. -/
theorem mem_linear_iff (h : a ≠ 0 ∨ b ≠ 0) :
    x ∈ linear a b ↔ a * x + b = 0 := by
  refine ⟨eval_of_mem_linear, fun hroot => ?_⟩
  have ha : a ≠ 0 := by
    rintro rfl
    rw [zero_mul, zero_add] at hroot
    exact h.elim (fun ha => ha rfl) (fun hb => hb hroot)
  rw [linear_of_ne ha, List.mem_singleton, eq_div_iff ha]
  linear_combination hroot

/-- With the stable sum a quadratic is a product of two lines. -/
theorem stableSum_mul_eval (hdisc : 0 ≤ b * b - 4 * a * c) :
    (a * x - stableSum a b c) * (stableSum a b c * x - c)
      = stableSum a b c * (a * x ^ 2 + b * x + c) := by
  linear_combination -x * stableSum_sq hdisc

/-- **ALL ROOTS OF A QUADRATIC** are answered, unless it vanishes. -/
theorem mem_quadratic_iff (h : a ≠ 0 ∨ b ≠ 0 ∨ c ≠ 0) :
    x ∈ quadratic a b c ↔ a * x ^ 2 + b * x + c = 0 := by
  refine ⟨eval_of_mem_quadratic, fun hroot => ?_⟩
  rcases eq_or_ne a 0 with rfl | ha
  · rw [zero_mul, zero_add] at hroot
    rw [quadratic_zero, mem_linear_iff (h.resolve_left fun ha => ha rfl)]
    exact hroot
  have hsq : (2 * a * x + b) ^ 2 = b * b - 4 * a * c := by
    linear_combination 4 * a * hroot
  rw [quadratic_of_ne ha]
  split_ifs with hneg hzero
  · exact absurd (sq_nonneg (2 * a * x + b)) (hsq.trans_lt hneg).not_ge
  · rw [hzero, sq_eq_zero_iff] at hsq
    rw [List.mem_singleton, eq_div_iff (mul_ne_zero two_ne_zero ha)]
    linear_combination hsq
  have hdisc : 0 < b * b - 4 * a * c :=
    (not_lt.mp hneg).lt_of_ne (Ne.symm hzero)
  have hprod := stableSum_mul_eval (x := x) hdisc.le
  rw [hroot, mul_zero] at hprod
  rw [mem_ascending, eq_div_iff ha, eq_div_iff (stableSum_ne_zero hdisc)]
  rcases mul_eq_zero.mp hprod with h₁ | h₂
  · exact Or.inl (by linear_combination h₁)
  · exact Or.inr (by linear_combination h₂)

end PiecewiseCubic.Roots
