import PiecewiseCubic.Proofs.Checked
import PiecewiseCubic.Proofs.Polynomial.Cubic

/-! # Every cubic is solved exactly

    Over checked scalars each closed form goes the way it goes over the
    reals, so it divides by no zero and draws the root of no negative number.
    Insertion keeps an ascending list ascending, and what is left when
    repetitions are dropped from one ascends strictly.  With the completeness
    of the formulas, the answer is the list of all roots. -/

namespace PiecewiseCubic

open Checked

/-! ## Ascending lists -/

namespace Scalar

variable {x : ℝ} {xs : List ℝ}

theorem pairwise_insertAscending (h : xs.Pairwise (· ≤ ·)) :
    (insertAscending x xs).Pairwise (· ≤ ·) := by
  induction xs with
  | nil => exact List.pairwise_singleton ..
  | cons y ys ih =>
      obtain ⟨hle, htail⟩ := List.pairwise_cons.mp h
      rw [insertAscending]
      split_ifs with hall
      · refine List.pairwise_cons.mpr ⟨fun z hz => ?_, h⟩
        exact (of_decide_eq_true (List.all_eq_true.mp hall z hz)).le
      · refine List.pairwise_cons.mpr ⟨fun z hz => ?_, ih htail⟩
        rcases List.mem_cons.mp ((insertAscending_perm x ys).mem_iff.mp hz)
          with rfl | hz
        · -- the first entry is not above one that is not above `z`
          by_contra hlt
          refine hall (List.all_eq_true.mpr fun w hw => decide_eq_true ?_)
          rcases List.mem_cons.mp hw with rfl | hw
          · exact not_le.mp hlt
          · exact (not_le.mp hlt).trans_le (hle w hw)
        · exact hle z hz

theorem pairwise_sortAscending (xs : List ℝ) :
    (sortAscending xs).Pairwise (· ≤ ·) := by
  have hfold : ∀ sorted : List ℝ, sorted.Pairwise (· ≤ ·) →
      (xs.foldl (fun sorted x => insertAscending x sorted) sorted).Pairwise
        (· ≤ ·) := by
    induction xs with
    | nil => exact fun _ h => h
    | cons y ys ih => exact fun _ h => ih _ (pairwise_insertAscending h)
  exact hfold [] List.Pairwise.nil

theorem isChain_distinctAfter {last : ℝ} (h : (last :: xs).IsChain (· ≤ ·)) :
    (last :: distinctAfter last xs).IsChain (· < ·) := by
  induction xs generalizing last with
  | nil => exact List.isChain_singleton _
  | cons y ys ih =>
      obtain ⟨hle, htail⟩ := List.isChain_cons_cons.mp h
      rw [distinctAfter]
      split_ifs with hy
      · rw [beq_iff_eq.mp hy] at htail
        exact ih htail
      · rw [beq_iff_eq] at hy
        exact List.isChain_cons_cons.mpr
          ⟨hle.lt_of_ne (Ne.symm hy), ih htail⟩

/-- **WITHOUT REPETITIONS** an ascending list ascends strictly. -/
theorem pairwise_distinct (h : xs.Pairwise (· ≤ ·)) :
    (distinct xs).Pairwise (· < ·) := by
  cases xs with
  | nil => exact List.Pairwise.nil
  | cons y ys =>
      exact List.isChain_iff_pairwise.mp (isChain_distinctAfter h.isChain)

end Scalar

/-! ## Lists of numbers -/

namespace Checked

theorem insertAscending_number (x : ℝ) (xs : List ℝ) :
    Scalar.insertAscending (number x) (xs.map number)
      = (Scalar.insertAscending x xs).map number := by
  induction xs with
  | nil => rfl
  | cons y ys ih =>
      rw [List.map_cons, Scalar.insertAscending, Scalar.insertAscending,
        apply_ite (List.map number), ih]
      refine if_congr ?_ rfl rfl
      rw [← List.map_cons, List.all_map]
      exact Iff.of_eq (congrArg (· = true) (congrArg ((y :: ys).all ·)
        (funext fun z => decide_eq_decide.mpr Iff.rfl)))

theorem sortAscending_number (xs : List ℝ) :
    Scalar.sortAscending (xs.map number)
      = (Scalar.sortAscending xs).map number := by
  rw [Scalar.sortAscending, List.foldl_map, Scalar.sortAscending]
  show xs.foldl _ (List.map number []) = _
  refine List.foldl_hom (List.map number) fun sorted x => ?_
  exact insertAscending_number x sorted

theorem distinctAfter_number (last : ℝ) (xs : List ℝ) :
    Scalar.distinctAfter (number last) (xs.map number)
      = (Scalar.distinctAfter last xs).map number := by
  induction xs generalizing last with
  | nil => rfl
  | cons y ys ih =>
      rw [List.map_cons, Scalar.distinctAfter, Scalar.distinctAfter,
        number_beq, apply_ite (List.map number), List.map_cons, ih, ih]

theorem distinct_number (xs : List ℝ) :
    Scalar.distinct (xs.map number) = (Scalar.distinct xs).map number := by
  cases xs with
  | nil => rfl
  | cons y ys => exact congrArg (number y :: ·) (distinctAfter_number y ys)

end Checked

namespace Roots

variable {p : ℝ} (o : Overflow) (a b c d : ℝ)

/-! ## Up to degree two -/

theorem linear_checked :
    linear (number a) (number b) = (linear a b).map number := by
  refine (ite_number_beq a 0 _ _).trans ?_
  split_ifs with ha
  · rw [ha, linear_zero]
    rfl
  · rw [linear_of_ne ha]
    exact congrArg ([·]) (number_div (-b) ha)

theorem ascending_checked (r s : ℝ) :
    ascending (number r) (number s) = (ascending r s).map number := by
  refine (ite_number_lt s r _ _).trans ?_
  rw [ascending, apply_ite (List.map number)]
  rfl

theorem pairwise_linear : (linear a b).Pairwise (· < ·) := by
  rcases eq_or_ne a 0 with rfl | ha
  · rw [linear_zero]
    exact List.Pairwise.nil
  · rw [linear_of_ne ha]
    exact List.pairwise_singleton ..

theorem pairwise_ascending {r s : ℝ} (h : r ≠ s) :
    (ascending r s).Pairwise (· < ·) := by
  rw [ascending]
  split_ifs with hlt
  · exact List.pairwise_pair.mpr hlt
  · exact List.pairwise_pair.mpr ((not_lt.mp hlt).lt_of_ne h)

open Scalar in
theorem stableSum_checked (hdisc : 0 ≤ b * b - 4 * a * c) :
    -0.5 * (number b + copySign (sqrt (number (b * b - 4 * a * c))) (number b))
      = number (stableSum a b c) := by
  rw [sqrt_number hdisc]
  rfl

/-- **A QUADRATIC** is solved without a quotient by zero: where the stable
    sum divides, the discriminant is positive. -/
theorem quadratic_checked :
    quadratic (number a) (number b) (number c)
      = (quadratic a b c).map number := by
  refine (ite_number_beq a 0 _ _).trans ?_
  split_ifs with ha
  · rw [ha, quadratic_zero]
    exact linear_checked b c
  show (if number (b * b - 4 * a * c) < number 0 then []
    else if (number (b * b - 4 * a * c) == number 0) = true then
      [number (-b) / number (2 * a)]
    else ascending (_ / number a) (number c / _)) = _
  rw [ite_number_lt, ite_number_beq, quadratic_of_ne ha]
  split_ifs with hneg hzero
  · rfl
  · exact congrArg ([·]) (number_div (-b) (mul_ne_zero two_ne_zero ha))
  · have hdisc : 0 < b * b - 4 * a * c :=
      (not_lt.mp hneg).lt_of_ne (Ne.symm hzero)
    rw [← ascending_checked, ← number_div _ ha,
      ← number_div _ (stableSum_ne_zero hdisc),
      ← stableSum_checked a b c hdisc.le]
    rfl

/-- The two quotients differ, as the discriminant is not zero. -/
theorem pairwise_quadratic : (quadratic a b c).Pairwise (· < ·) := by
  rcases eq_or_ne a 0 with rfl | ha
  · rw [quadratic_zero]
    exact pairwise_linear b c
  rw [quadratic_of_ne ha]
  split_ifs with hneg hzero
  · exact List.Pairwise.nil
  · exact List.pairwise_singleton ..
  have hdisc : 0 < b * b - 4 * a * c :=
    (not_lt.mp hneg).lt_of_ne (Ne.symm hzero)
  have hsum := stableSum_sq hdisc.le
  refine pairwise_ascending fun heq => hzero ?_
  -- equal quotients make the stable sum half of `-b`
  rw [div_eq_div_iff ha (stableSum_ne_zero hdisc)] at heq
  have hhalf : stableSum a b c * (2 * stableSum a b c + b) = 0 := by
    linear_combination hsum + heq
  have hb := (mul_eq_zero.mp hhalf).resolve_left (stableSum_ne_zero hdisc)
  linear_combination 4 * heq + (b - 2 * stableSum a b c) * hb

/-! ## Degree three -/

theorem cube_checked (x : ℝ) : cube o (number x) = .ok (number (x ^ 3)) :=
  if_neg fun h => Bool.noConfusion
    ((isFinite_number (x ^ 3)).symm.trans h.2.2)

theorem largestAngle_checked (q : ℝ) (hp : p < 0) :
    largestAngle (number p) (number q) = number (largestAngle p q) := by
  have hscale : Scalar.sqrt (number (-3 / p)) = number √(-3 / p) :=
    sqrt_number (neg_three_div_nonneg hp)
  have hcosine : -1 ≤ Scalar.clamp (tripleAngleCosine p q √(-3 / p)) (-1) 1
      ∧ Scalar.clamp (tripleAngleCosine p q √(-3 / p)) (-1) 1 ≤ 1 := by
    rw [Scalar.clamp, Exact.min_eq, Exact.max_eq]
    exact ⟨le_min (le_max_right _ _) (by norm_num), min_le_right _ _⟩
  show Scalar.acos (Scalar.clamp (number (3 * q) / number (2 * p)
    * Scalar.sqrt (number (-3) / number p)) (number (-1)) (number 1))
    / number 3 = _
  rw [number_div _ hp.ne, hscale,
    number_div _ (mul_ne_zero two_ne_zero hp.ne), number_mul, clamp_number]
  refine (congrArg (· / number 3) (acos_number hcosine)).trans ?_
  exact number_div _ three_ne_zero

/-- **THE TRIGONOMETRIC FORM** is only asked for square roots of numbers that
    have one and for the angle of a cosine. -/
theorem trigonometric_checked (q : ℝ) (hp : p < 0) :
    trigonometric (number p) (number q)
      = (trigonometric p q).map (List.map number) := by
  have hradius : 0 ≤ -p / 3 := by linarith
  have hscale := neg_three_div_nonneg hp
  have hradius' : ¬ number (-p) / number 3 < number 0 := by
    rw [number_div _ three_ne_zero]
    exact not_lt.mpr hradius
  have hscale' : ¬ number (-3) / number p < number 0 := by
    rw [number_div _ hp.ne]
    exact not_lt.mpr hscale
  have hroot : ∀ k, thirdRoot (number p) (number q) k
      = number (thirdRoot p q k) := by
    intro k
    show number 2 * Scalar.sqrt (number (-p) / number 3)
      * Scalar.cos (largestAngle (number p) (number q)
        - number (2 * Real.pi * Scalar.ofNat k) / number 3) = _
    rw [number_div _ three_ne_zero, number_div _ three_ne_zero,
      sqrt_number hradius, largestAngle_checked q hp]
    rfl
  rw [trigonometric_eq (not_lt.mpr hradius) (not_lt.mpr hscale)]
  refine (trigonometric_eq hradius' hscale').trans (congrArg Except.ok ?_)
  rw [List.map_map]
  exact List.map_congr_left fun k _ => hroot k

/-- **A DEPRESSED CUBIC** is solved without a quotient by zero. -/
theorem depressed_checked (p q : ℝ) :
    depressed (number p) (number q) (number (q * q / 4 + p ^ 3 / 27))
      = (depressed p q (q * q / 4 + p ^ 3 / 27)).map (List.map number) := by
  have hhalf : number (-q) / number 2 = number (-q / 2) :=
    number_div _ two_ne_zero
  show (if (number p == number 0) = true then _
    else if number 0 < number (q * q / 4 + p ^ 3 / 27) then
      .ok [Scalar.cbrt (number (-q) / number 2
          + Scalar.sqrt (number (q * q / 4 + p ^ 3 / 27)))
        + Scalar.cbrt (number (-q) / number 2
          - Scalar.sqrt (number (q * q / 4 + p ^ 3 / 27)))]
    else if (number (q * q / 4 + p ^ 3 / 27) == number 0) = true then
      .ok [number (3 * q) / number p, number (-3 * q) / number (2 * p)]
    else trigonometric (number p) (number q)) = _
  rw [ite_number_beq, ite_number_lt, ite_number_beq, depressed_eq]
  split_ifs with hp hpos hzero
  · rfl
  · rw [hhalf, sqrt_number hpos.le]
    rfl
  · rw [number_div _ hp, number_div _ (mul_ne_zero two_ne_zero hp)]
    rfl
  · exact trigonometric_checked q (neg_of_discriminant_neg
      ((not_lt.mp hpos).lt_of_ne hzero))

/-- **NEWTON'S STEPS** end where the derivative vanishes. -/
theorem newton_checked (n : ℕ) (x : ℝ) :
    newton (number b) (number c) (number d) n (number x)
      = number (newton b c d n x) := by
  induction n generalizing x with
  | zero => rfl
  | succ n ih =>
      refine (ite_number_beq ((3 * x + 2 * b) * x + c) 0 _ _).trans ?_
      rw [newton_succ]
      split_ifs with hslope
      · rfl
      · rw [← ih]
        exact congrArg (fun step => newton _ _ _ n (number x - step))
          (number_div _ hslope)

theorem settle_checked (ts : List ℝ) :
    settle (number b) (number c) (number d) (ts.map number)
      = (settle b c d ts).map number := by
  have hpolish : ∀ t, newton (number b) (number c) (number d) polishSteps
      (number t - number b / number 3)
        = number (newton b c d polishSteps (t - b / 3)) := by
    intro t
    rw [number_div _ three_ne_zero, number_sub, newton_checked]
  rw [settle, settle, ← distinct_number, ← sortAscending_number, List.map_map,
    List.map_map]
  exact congrArg (Scalar.distinct <| Scalar.sortAscending <| ts.map ·)
    (funext hpolish)

/-- **A CUBIC IN NORMAL FORM** is solved as it is over the reals. -/
theorem monic_checked :
    monic o (number b) (number c) (number d)
      = (monic o b c d).map (List.map number) := by
  -- the coefficients of the depressed cubic and a share of its discriminant
  obtain ⟨p, hp⟩ : ∃ p, c - b * b / 3 = p := ⟨_, rfl⟩
  obtain ⟨q, hq⟩ : ∃ q, 2 * b ^ 3 / 27 - b * c / 3 + d = q := ⟨_, rfl⟩
  have hp' : number c - number (b * b) / number 3 = number p := by
    rw [number_div _ three_ne_zero, number_sub, hp]
  have hq' : number (2 * b ^ 3) / number 27 - number (b * c) / number 3
      + number d = number q := by
    rw [number_div _ three_ne_zero, number_div _ (by norm_num), ← hq]
    rfl
  have hw' : number (q * q) / number 4 + number (p ^ 3) / number 27
      = number (q * q / 4 + p ^ 3 / 27) := by
    rw [number_div _ four_ne_zero, number_div _ (by norm_num)]
    rfl
  rw [monic_eq (cube_eq o b) hp (cube_eq o p) hq rfl,
    monic_eq (cube_checked o b) hp' (cube_checked o p) hq' hw']
  refine (congrArg (Except.map _) (depressed_checked p q)).trans ?_
  show _ = Except.map _ (Except.map _ (depressed p q (q * q / 4 + p ^ 3 / 27)))
  cases depressed p q (q * q / 4 + p ^ 3 / 27) with
  | ok ts => exact congrArg Except.ok (settle_checked b c d ts)
  | error fault => rfl

/-- **A CUBIC** is solved as it is over the reals. -/
theorem cubic_checked :
    cubic o (number a) (number b) (number c) (number d)
      = (cubic o a b c d).map (List.map number) := by
  refine (ite_number_beq a 0 _ _).trans ?_
  split_ifs with ha
  · rw [ha, cubic_zero, quadratic_checked]
    rfl
  · rw [number_div _ ha, number_div _ ha, number_div _ ha, monic_checked,
      cubic_of_ne o ha]

theorem pairwise_cubic {roots : List ℝ} (h : cubic o a b c d = .ok roots) :
    roots.Pairwise (· < ·) := by
  rcases eq_or_ne a 0 with rfl | ha
  · rw [cubic_zero] at h
    exact Except.ok.inj h ▸ pairwise_quadratic b c d
  · obtain ⟨ts, hmonic, -⟩ := exists_settle o (b / a) (c / a) (d / a)
    rw [cubic_of_ne o ha, hmonic] at h
    exact Except.ok.inj h ▸ Scalar.pairwise_distinct
      (Scalar.pairwise_sortAscending _)

/-- **CUBICS ARE SOLVED EXACTLY.**  Unless all coefficients are zero, the
    roots are answered, all of them, none twice and in ascending order, and
    each operation on the way to them has a result.  The cosine, which is only
    asked for where the discriminant is negative, is left as it is by the
    clamp. -/
theorem cubic_exact (h : a ≠ 0 ∨ b ≠ 0 ∨ c ≠ 0 ∨ d ≠ 0) :
    (∃ roots : List ℝ,
      cubic o (number a) (number b) (number c) (number d)
          = .ok (roots.map number)
        ∧ cubic o a b c d = .ok roots
        ∧ roots.Pairwise (· < ·)
        ∧ ∀ x, x ∈ roots ↔ a * x ^ 3 + b * x ^ 2 + c * x + d = 0)
      ∧ ∀ p q : ℝ, q * q / 4 + p ^ 3 / 27 < 0 →
        Scalar.clamp (tripleAngleCosine p q √(-3 / p)) (-1) 1
          = tripleAngleCosine p q √(-3 / p) := by
  obtain ⟨roots, hroots, hmem⟩ := exists_cubic o ⟨a, b, c, d⟩
  have hvanish : ¬ (Cubic.mk a b c d).Vanishes := by
    rintro ⟨ha, hb, hc, hd⟩
    exact h.elim (· ha) (Or.elim · (· hb) (Or.elim · (· hc) (· hd)))
  refine ⟨⟨roots, ?_, hroots, pairwise_cubic o a b c d hroots, fun x => ?_⟩,
    fun p q => clamp_tripleAngleCosine⟩
  · rw [cubic_checked]
    exact congrArg (Except.map (List.map number)) hroots
  · rw [hmem, and_iff_right hvanish, Cubic.eval_eq]

/-- The roots of `(x + 3) * (x - 1) * (x - 2)`. -/
theorem cubic_exact_threeRoots :
    cubic .fault (number 1) (number 0) (number (-7)) (number 6)
        = .ok [number (-3), number 1, number 2]
      ∧ Scalar.clamp (tripleAngleCosine (-7) 6 √(-3 / -7)) (-1) 1
        = tripleAngleCosine (-7) 6 √(-3 / -7) := by
  obtain ⟨⟨roots, hchecked, -, hsorted, hmem⟩, hclamp⟩ :=
    cubic_exact .fault 1 0 (-7) 6 (Or.inl one_ne_zero)
  have hthree : [-3, 1, 2].Pairwise ((· < ·) : ℝ → ℝ → Prop) := by norm_num
  have hfactor : ∀ x : ℝ, 1 * x ^ 3 + 0 * x ^ 2 + -7 * x + 6
      = (x - -3) * ((x - 1) * (x - 2)) := by
    intro x
    ring
  have hroots : roots = [-3, 1, 2] := by
    refine hsorted.eq_of_mem_iff hthree fun x => ?_
    rw [hmem, hfactor, mul_eq_zero, mul_eq_zero, sub_eq_zero, sub_eq_zero,
      sub_eq_zero, List.mem_cons, List.mem_pair]
  refine ⟨?_, hclamp (-7) 6 (by norm_num)⟩
  rw [hchecked, hroots]
  rfl

end Roots

end PiecewiseCubic
