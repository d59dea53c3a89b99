import PiecewiseCubic.Proofs.Curve.Moments
import PiecewiseCubic.Curve.Limiter

/-! # Limited slopes over the reals

    The pass looks at one segment after the other and may change the slope
    that two of them share twice: when it leaves the segment on the left and
    when it looks at the one on the right.  The second change only shrinks
    the slope towards zero, and a slope that runs against the secant on its
    left does not survive it.  So each segment ends up with two slopes along
    its secant, and with a pair in the circle of radius three unless the pass
    has cut its left slope for a change of direction. -/

namespace PiecewiseCubic.Limiter

open Tridiagonal

variable {b s l r h l' : ℝ} {rest : List (ℝ × ℝ)}

/-! ## One segment -/

theorem limitFrom_flat (hflat : |s| < flat) :
    limitFrom (some b) l ((s, r) :: rest)
      = 0 :: limitFrom (some s) 0 rest := by
  have hjudge : judge (some b) s l r = .flat := if_pos hflat
  rw [limitFrom, hjudge]
  rfl

theorem limitFrom_wrongSign (hflat : ¬ |s| < flat)
    (hwrong : l / s < 0 ∨ l * b < 0) :
    limitFrom (some b) l ((s, r) :: rest)
      = 0 :: limitFrom (some s) r rest := by
  have hjudge : judge (some b) s l r = .wrongSign :=
    (if_neg hflat).trans (if_pos (hwrong.imp_right decide_eq_true))
  rw [limitFrom, hjudge]
  rfl

/-- What is left of `judge` for slopes along the secants. -/
theorem judge_along (hflat : ¬ |s| < flat)
    (halong : ¬ (l / s < 0 ∨ l * b < 0)) :
    judge (some b) s l r
      = if 9 < (l / s) ^ 2 + (r / s) ^ 2 then
          .steep (3 / √((l / s) ^ 2 + (r / s) ^ 2) * (l / s) * s)
            (3 / √((l / s) ^ 2 + (r / s) ^ 2) * (r / s) * s)
        else .kept :=
  (if_neg hflat).trans
    (if_neg fun e => halong (e.imp_right of_decide_eq_true))

theorem limitFrom_steep (hflat : ¬ |s| < flat)
    (halong : ¬ (l / s < 0 ∨ l * b < 0))
    (hsteep : 9 < (l / s) ^ 2 + (r / s) ^ 2) :
    limitFrom (some b) l ((s, r) :: rest)
      = 3 / √((l / s) ^ 2 + (r / s) ^ 2) * (l / s) * s
        :: limitFrom (some s)
            (3 / √((l / s) ^ 2 + (r / s) ^ 2) * (r / s) * s) rest := by
  rw [limitFrom, judge_along hflat halong, if_pos hsteep]

theorem limitFrom_kept (hflat : ¬ |s| < flat)
    (halong : ¬ (l / s < 0 ∨ l * b < 0))
    (hsteep : ¬ 9 < (l / s) ^ 2 + (r / s) ^ 2) :
    limitFrom (some b) l ((s, r) :: rest)
      = l :: limitFrom (some s) r rest := by
  rw [limitFrom, judge_along hflat halong, if_neg hsteep]

/-- What the pass can do at a segment with the secant `s` and the slopes `l`
    and `r`, behind a segment with the secant `b`: the slope it leaves at the
    left knot, and the one it goes on with at the right knot. -/
inductive Outcome (b s l r : ℝ) : ℝ → ℝ → Prop where
  | flat (small : |s| < flat) : Outcome b s l r 0 0
  | wrongSign (steep : s ≠ 0) (against : l * s < 0 ∨ l * b < 0) :
      Outcome b s l r 0 r
  | scaled (tau : ℝ) (steep : s ≠ 0) (along : 0 ≤ l * s) (before : 0 ≤ l * b)
      (nonneg : 0 ≤ tau) (le_one : tau ≤ 1)
      (circle : (tau * l) ^ 2 + (tau * r) ^ 2 ≤ 9 * s ^ 2) :
      Outcome b s l r (tau * l) (tau * r)

theorem flat_pos : (0 : ℝ) < flat := by
  show (0 : ℝ) < 1e-50
  norm_num

theorem div_neg_iff_mul_neg : l / s < 0 ↔ l * s < 0 :=
  div_neg_iff.trans mul_neg_iff.symm

/-- The slopes of a steep segment are scaled down to the circle. -/
theorem scaled_circle (hs : s ≠ 0) (hsteep : 9 < (l / s) ^ 2 + (r / s) ^ 2) :
    ∃ tau : ℝ, tau = 3 / √((l / s) ^ 2 + (r / s) ^ 2) ∧ 0 ≤ tau
      ∧ tau ≤ 1 ∧ (tau * l) ^ 2 + (tau * r) ^ 2 ≤ 9 * s ^ 2 := by
  refine ⟨_, rfl, by positivity, ?_, ?_⟩
  · have hthree : (3 : ℝ) ≤ √((l / s) ^ 2 + (r / s) ^ 2) :=
      Real.le_sqrt_of_sq_le (by linarith)
    exact (div_le_one (by linarith)).mpr hthree
  · have hsum : ((l / s) ^ 2 + (r / s) ^ 2) * s ^ 2 = l ^ 2 + r ^ 2 := by
      rw [div_pow, div_pow, ← add_div, div_mul_cancel₀ _ (pow_ne_zero 2 hs)]
    have hpos : (0 : ℝ) < (l / s) ^ 2 + (r / s) ^ 2 := by linarith
    rw [mul_pow, mul_pow, ← mul_add, ← hsum, div_pow,
      Real.sq_sqrt hpos.le, div_mul_eq_mul_div, div_le_iff₀ hpos]
    exact le_of_eq (by ring)

/-- **ONE STEP** of the pass. -/
theorem limitFrom_cons (b l s r : ℝ) (rest : List (ℝ × ℝ)) :
    ∃ h l', limitFrom (some b) l ((s, r) :: rest)
        = h :: limitFrom (some s) l' rest ∧ Outcome b s l r h l' := by
  by_cases hflat : |s| < flat
  · exact ⟨0, 0, limitFrom_flat hflat, .flat hflat⟩
  have hs : s ≠ 0 := by
    rintro rfl
    exact hflat (abs_zero.trans_lt flat_pos)
  by_cases hwrong : l / s < 0 ∨ l * b < 0
  · exact ⟨0, r, limitFrom_wrongSign hflat hwrong,
      .wrongSign hs (hwrong.imp_left div_neg_iff_mul_neg.mp)⟩
  obtain ⟨halong, hbefore⟩ := not_or.mp hwrong
  rw [div_neg_iff_mul_neg, not_lt] at halong
  rw [not_lt] at hbefore
  by_cases hsteep : 9 < (l / s) ^ 2 + (r / s) ^ 2
  · obtain ⟨tau, htau, hnonneg, hle, hcircle⟩ := scaled_circle hs hsteep
    rw [limitFrom_steep hflat hwrong hsteep, ← htau, mul_assoc, mul_assoc,
      div_mul_cancel₀ _ hs, div_mul_cancel₀ _ hs]
    exact ⟨_, _, rfl, .scaled tau hs halong hbefore hnonneg hle hcircle⟩
  · rw [limitFrom_kept hflat hwrong hsteep]
    rw [not_lt, div_pow, div_pow, ← add_div,
      div_le_iff₀ (by positivity)] at hsteep
    have hkept := Outcome.scaled (r := r) 1 hs halong hbefore zero_le_one
      (le_refl 1) (by rwa [one_mul, one_mul])
    rw [one_mul, one_mul] at hkept
    exact ⟨l, r, rfl, hkept⟩

/-! ## The whole pass -/

/-- The slopes at both ends of a segment with the secant `s`, behind a
    segment with the secant `b`, after the pass. -/
structure Tame (b s l r : ℝ) : Prop where
  left_along : 0 ≤ l * s
  right_along : 0 ≤ r * s
  bounded : l ^ 2 + r ^ 2 ≤ 9 * s ^ 2 ∨ l = 0 ∧ b * s < 0

/-- Each slope that the pass comes to is a mean of the secants on both sides,
    or a part of it, and the last one runs along its secant. -/
def Prepared (b l : ℝ) : List (ℝ × ℝ) → Prop
  | [] => 0 ≤ l * b
  | (s, r) :: rest => (∃ k, 0 ≤ k ∧ l = k * (b + s)) ∧ Prepared s r rest

theorem Prepared.scale (h : Prepared b l rest) {k : ℝ} (hk : 0 ≤ k) :
    Prepared b (k * l) rest := by
  cases rest with
  | nil =>
      show 0 ≤ k * l * b
      rw [mul_assoc]
      exact mul_nonneg hk h
  | cons e rest =>
      obtain ⟨⟨k', hk', hl⟩, hrest⟩ := h
      exact ⟨⟨k * k', mul_nonneg hk hk', by rw [hl, mul_assoc]⟩, hrest⟩

/-- The slope that the pass goes on with is a part of the one there was. -/
theorem Outcome.exists_share (o : Outcome b s l r h l') :
    ∃ k, 0 ≤ k ∧ l' = k * r := by
  cases o with
  | flat small => exact ⟨0, le_refl 0, (zero_mul r).symm⟩
  | wrongSign steep against => exact ⟨1, zero_le_one, (one_mul r).symm⟩
  | scaled tau steep along before nonneg le_one circle =>
      exact ⟨tau, nonneg, rfl⟩

/-- **THE SECOND LOOK** at a slope shrinks it, and leaves nothing of it if it
    runs against the secant before it. -/
theorem Prepared.exists_head (h : Prepared b l rest) :
    ∃ theta fs, limitFrom (some b) l rest = theta * l :: fs ∧ 0 ≤ theta
      ∧ theta ≤ 1 ∧ 0 ≤ theta * l * b := by
  cases rest with
  | nil =>
      refine ⟨1, [], ?_, zero_le_one, le_refl 1, ?_⟩
      · rw [one_mul]
        rfl
      · rw [one_mul]
        exact h
  | cons e rest =>
      obtain ⟨s, r⟩ := e
      obtain ⟨h', l', hstep, o⟩ := limitFrom_cons b l s r rest
      rw [hstep]
      cases o with
      | flat small =>
          exact ⟨0, _, by rw [zero_mul], le_refl 0, zero_le_one, by simp⟩
      | wrongSign steep against =>
          exact ⟨0, _, by rw [zero_mul], le_refl 0, zero_le_one, by simp⟩
      | scaled tau steep along before nonneg le_one circle =>
          refine ⟨tau, _, rfl, nonneg, le_one, ?_⟩
          rw [mul_assoc]
          exact mul_nonneg nonneg before

/-- A mean of two secants runs against one of them only if they differ in
    direction. -/
theorem mul_neg_of_against {k : ℝ} (hk : 0 ≤ k)
    (against : k * (b + s) * s < 0 ∨ k * (b + s) * b < 0) : b * s < 0 := by
  by_contra hsame
  rw [not_lt] at hsame
  have hs : 0 ≤ k * (b * s + s ^ 2) :=
    mul_nonneg hk (add_nonneg hsame (sq_nonneg s))
  have hb : 0 ≤ k * (b ^ 2 + b * s) :=
    mul_nonneg hk (add_nonneg (sq_nonneg b) hsame)
  rcases against with h | h
  · exact absurd hs (not_le.mpr (by linarith))
  · exact absurd hb (not_le.mpr (by linarith))

/-- **ONE SEGMENT** is tame after the second look at its right slope. -/
theorem Outcome.tame (o : Outcome b s l r h l')
    (mean : ∃ k, 0 ≤ k ∧ l = k * (b + s)) {theta : ℝ} (h₀ : 0 ≤ theta)
    (h₁ : theta ≤ 1) (along : 0 ≤ theta * l' * s) :
    Tame b s h (theta * l') := by
  cases o with
  | flat small =>
      refine ⟨by simp, along, Or.inl ?_⟩
      rw [mul_zero, zero_pow two_ne_zero, add_zero]
      positivity
  | wrongSign steep against =>
      obtain ⟨k, hk, rfl⟩ := mean
      exact ⟨by simp, along,
        Or.inr ⟨rfl, mul_neg_of_against hk against⟩⟩
  | scaled tau steep left_along before nonneg le_one circle =>
      refine ⟨?_, along, Or.inl ?_⟩
      · rw [mul_assoc]
        exact mul_nonneg nonneg left_along
      · have hshrink : (theta * (tau * r)) ^ 2 ≤ (tau * r) ^ 2 := by
          rw [mul_pow]
          exact mul_le_of_le_one_left (sq_nonneg _)
            (pow_le_one₀ h₀ h₁)
        linarith

/-- **ALL SEGMENTS** are tame after the pass. -/
theorem Prepared.tame (prepared : Prepared b l rest) {i : ℕ}
    (hi : i < rest.length) :
    Tame ((b :: rest.map Prod.fst).getD i 0) ((rest.map Prod.fst).getD i 0)
      ((limitFrom (some b) l rest).getD i 0)
      ((limitFrom (some b) l rest).getD (i + 1) 0) := by
  -- what the pass goes on with is again prepared, by `Prepared.scale`
  induction rest generalizing b l i with
  | nil => exact absurd hi (Nat.not_lt_zero i)
  | cons e rest ih =>
      obtain ⟨s, r⟩ := e
      obtain ⟨mean, hrest⟩ := prepared
      obtain ⟨h, l', hstep, o⟩ := limitFrom_cons b l s r rest
      obtain ⟨k, hk, rfl⟩ := o.exists_share
      have hnext : Prepared s (k * r) rest := hrest.scale hk
      rw [hstep]
      cases i with
      | zero =>
          -- the slope that both segments share is looked at once more
          obtain ⟨theta, fs, hhead, h₀, h₁, along⟩ := hnext.exists_head
          rw [hhead]
          exact o.tame mean h₀ h₁ along
      | succ i => exact ih hnext (Nat.lt_of_succ_lt_succ hi)

/-! ## The slopes of a curve -/

open Scalar in
/-- A slope along the secant before it is judged as if there were none. -/
theorem judge_some {α : Type} [Scalar α] {b s l r : α}
    (h : decide (l * b < 0) = false) :
    judge (some b) s l r = judge none s l r := by
  simp only [judge, Option.any_some, Option.any_none, h]

/-- With its first secant as first slope, a pass that has nothing before it
    runs as if it had that secant there. -/
theorem limitFrom_none (s r : ℝ) (rest : List (ℝ × ℝ)) :
    limitFrom none s ((s, r) :: rest)
      = limitFrom (some s) s ((s, r) :: rest) := by
  have hsame : judge (some s) s s r = judge none s s r :=
    judge_some (decide_eq_false (not_lt.mpr (mul_self_nonneg s)))
  rw [limitFrom, limitFrom, hsame]

theorem prepared_ofFn {n : ℕ} {b l : ℝ} (e : Fin (n + 1) → ℝ × ℝ)
    (first : ∃ k, 0 ≤ k ∧ l = k * (b + (e 0).1))
    (inner : ∀ i : Fin n, ∃ k, 0 ≤ k
      ∧ (e i.castSucc).2 = k * ((e i.castSucc).1 + (e i.succ).1))
    (last : 0 ≤ (e (Fin.last n)).2 * (e (Fin.last n)).1) :
    Prepared b l (List.ofFn e) := by
  induction n generalizing b l with
  | zero =>
      rw [List.ofFn_succ]
      exact ⟨first, last⟩
  | succ n ih =>
      rw [List.ofFn_succ]
      exact ⟨first, ih (fun i => e i.succ) (inner 0)
        (fun i => inner i.succ) last⟩

variable {m : ℕ}

theorem initialSlopes_first (secants : Vector ℝ (m + 1)) :
    (initialSlopes secants).get 0 = secants.get 0 :=
  (Vector.get_ofFn _ _).trans Moments.atPoint_first

theorem initialSlopes_last (secants : Vector ℝ (m + 1)) :
    (initialSlopes secants).get (Fin.last _) = secants.get (Fin.last m) :=
  (Vector.get_ofFn _ _).trans Moments.atPoint_last

theorem initialSlopes_inner (secants : Vector ℝ (m + 1)) (k : Fin m) :
    (initialSlopes secants).get k.succ.castSucc
      = (secants.get k.castSucc + secants.get k.succ) / 2 :=
  (Vector.get_ofFn _ _).trans (Moments.atPoint_inner k)

/-- What the pass is given: each secant with the slope behind it. -/
noncomputable def entries (secants : Vector ℝ (m + 1)) : List (ℝ × ℝ) :=
  List.ofFn fun k : Fin (m + 1) =>
    (secants.get k, (initialSlopes secants).get k.succ)

theorem map_fst_entries (secants : Vector ℝ (m + 1)) :
    (entries secants).map Prod.fst = secants.toList := by
  rw [entries, List.map_ofFn]
  refine List.ext_getElem (by simp) fun j h₁ h₂ => ?_
  rw [List.getElem_ofFn, Vector.getElem_toList]
  rfl

/-- The slopes before the pass are means of neighbouring secants. -/
theorem prepared_entries (secants : Vector ℝ (m + 1)) :
    Prepared (secants.get 0) (secants.get 0) (entries secants) := by
  refine prepared_ofFn _ ⟨1 / 2, by norm_num, ?_⟩ (fun k => ?_) ?_
  · show secants.get 0 = (1 / 2 : ℝ) * (secants.get 0 + secants.get 0)
    ring
  · refine ⟨1 / 2, by norm_num, ?_⟩
    show (initialSlopes secants).get k.succ.castSucc
      = (1 / 2 : ℝ) * (secants.get k.castSucc + secants.get k.succ)
    rw [initialSlopes_inner]
    ring
  · show 0 ≤ (initialSlopes secants).get (Fin.last _)
      * secants.get (Fin.last m)
    rw [initialSlopes_last]
    exact mul_self_nonneg _

theorem toList_slopes (p : Vector (Point ℝ) (m + 2)) :
    (slopes p).toList
      = limitFrom (some ((Moments.secants p).get 0))
          ((Moments.secants p).get 0) (entries (Moments.secants p)) := by
  show limitFrom none ((initialSlopes (Moments.secants p)).get 0)
    (entries (Moments.secants p)) = _
  rw [initialSlopes_first, entries, List.ofFn_succ]
  exact limitFrom_none _ _ _

/-- **THE LIMITED SLOPES** are tame on each segment. -/
theorem tame_slopes (p : Vector (Point ℝ) (m + 2)) (i : Fin (m + 1)) :
    Tame ((Moments.secants p).get (placeBefore i))
      ((Moments.secants p).get i) ((slopes p).get i.castSucc)
      ((slopes p).get i.succ) := by
  have htame := (prepared_entries (Moments.secants p)).tame (i := i)
    (by rw [entries, List.length_ofFn]; exact i.isLt)
  rw [← toList_slopes, map_fst_entries, get_eq_entryOrZero] at htame
  simp only [get_eq_entryOrZero]
  obtain ⟨i, hi⟩ := i
  cases i with
  | zero => exact htame
  | succ i => exact htame

end PiecewiseCubic.Limiter
