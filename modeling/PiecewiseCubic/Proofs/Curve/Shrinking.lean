import PiecewiseCubic.Proofs.Curve.Limiter

/-! # The pass shrinks slopes

    Each look at a slope leaves a part of it: all of it, the share that puts
    the pair on the circle, or nothing.  The pass looks at the slopes of one
    segment and goes on with what it left of the right one, so in the end each
    slope is a part of the one that the pass was given.  What is left of
    nothing is nothing, so the zeros that a flat segment leaves stay. -/

namespace PiecewiseCubic.Limiter

open Tridiagonal

/-! ## Parts of a slope -/

/-- A slope that is left of another one. -/
def PartOf (x y : ℝ) : Prop := ∃ k : ℝ, 0 ≤ k ∧ k ≤ 1 ∧ x = k * y

namespace PartOf

variable {x y z : ℝ}

theorem all (x : ℝ) : PartOf x x := ⟨1, zero_le_one, le_refl 1, (one_mul x).symm⟩

theorem nothing (x : ℝ) : PartOf 0 x :=
  ⟨0, le_refl 0, zero_le_one, (zero_mul x).symm⟩

theorem trans (h : PartOf x y) (h' : PartOf y z) : PartOf x z := by
  obtain ⟨k, hk, hk₁, rfl⟩ := h
  obtain ⟨k', hk', hk₁', rfl⟩ := h'
  exact ⟨k * k', mul_nonneg hk hk', mul_le_one₀ hk₁ hk' hk₁',
    (mul_assoc k k' z).symm⟩

theorem abs_le (h : PartOf x y) : |x| ≤ |y| := by
  obtain ⟨k, hk, hk₁, rfl⟩ := h
  rw [abs_mul, abs_of_nonneg hk]
  exact mul_le_of_le_one_left (abs_nonneg y) hk₁

/-- What is left of nothing is nothing. -/
theorem eq_zero (h : PartOf x 0) : x = 0 := by
  obtain ⟨k, -, -, hx⟩ := h
  rw [hx, mul_zero]

end PartOf

/-! ## The pass -/

variable {b s l r h l' : ℝ} {rest : List (ℝ × ℝ)}

/-- **ONE STEP** leaves a part of both slopes. -/
theorem Outcome.partOf (o : Outcome b s l r h l') :
    PartOf h l ∧ PartOf l' r := by
  cases o with
  | flat small => exact ⟨.nothing l, .nothing r⟩
  | wrongSign steep against => exact ⟨.nothing l, .all r⟩
  | scaled tau steep along before nonneg le_one circle =>
      exact ⟨⟨tau, nonneg, le_one, rfl⟩, ⟨tau, nonneg, le_one, rfl⟩⟩

/-- **THE WHOLE PASS** leaves a part of each slope that it is given. -/
theorem partOf_limitFrom (b l : ℝ) (rest : List (ℝ × ℝ)) :
    List.Forall₂ PartOf (limitFrom (some b) l rest)
      (l :: rest.map Prod.snd) := by
  induction rest generalizing b l with
  | nil => exact .cons (.all l) .nil
  | cons e rest ih =>
      obtain ⟨s, r⟩ := e
      obtain ⟨h, l', hstep, o⟩ := limitFrom_cons b l s r rest
      obtain ⟨hleft, hright⟩ := o.partOf
      rw [hstep]
      -- the right slope is looked at again, with what is left of it
      obtain ⟨x, xs, hx, hxs, hlist⟩ :=
        List.forall₂_cons_right_iff.mp (ih s l')
      rw [hlist]
      exact .cons hleft (.cons (hx.trans hright) hxs)

/-- **A FLAT SEGMENT** ends up with two slopes of zero. -/
theorem limitFrom_of_flat {i : ℕ} (hi : i < rest.length)
    (small : |(rest.map Prod.fst).getD i 0| < flat) :
    (limitFrom (some b) l rest).getD i 0 = 0
      ∧ (limitFrom (some b) l rest).getD (i + 1) 0 = 0 := by
  induction rest generalizing b l i with
  | nil => exact absurd hi (Nat.not_lt_zero i)
  | cons e rest ih =>
      obtain ⟨s, r⟩ := e
      cases i with
      | zero =>
          have hflat : |s| < flat := small
          obtain ⟨x, xs, hx, -, hlist⟩ :=
            List.forall₂_cons_right_iff.mp (partOf_limitFrom s 0 rest)
          rw [limitFrom_flat hflat, hlist]
          exact ⟨rfl, hx.eq_zero⟩
      | succ i =>
          obtain ⟨h, l', hstep, -⟩ := limitFrom_cons b l s r rest
          rw [hstep]
          exact ih (Nat.lt_of_succ_lt_succ hi) small

/-! ## The slopes of a curve -/

variable {m : ℕ}

/-- The pass is given all slopes that there are. -/
theorem toList_initialSlopes (secants : Vector ℝ (m + 1)) :
    (initialSlopes secants).toList
      = secants.get 0 :: (entries secants).map Prod.snd := by
  rw [entries, List.map_ofFn, ← initialSlopes_first]
  refine List.ext_getElem (by simp) fun j h₁ h₂ => ?_
  rw [Vector.getElem_toList]
  cases j with
  | zero => rfl
  | succ j =>
      rw [List.getElem_cons_succ, List.getElem_ofFn]
      rfl

/-- **EACH LIMITED SLOPE** is a part of the one that there was. -/
theorem partOf_slopes (p : Vector (Point ℝ) (m + 2)) (i : Fin (m + 2)) :
    PartOf ((slopes p).get i)
      ((initialSlopes (Moments.secants p)).get i) := by
  have hparts := partOf_limitFrom ((Moments.secants p).get 0)
    ((Moments.secants p).get 0) (entries (Moments.secants p))
  rw [← toList_slopes, ← toList_initialSlopes] at hparts
  have hi : i.val < (slopes p).toList.length := by simp
  have hi' : i.val < (initialSlopes (Moments.secants p)).toList.length := by
    simp
  exact hparts.get hi hi'

/-- The slopes at both ends of a flat segment are zero. -/
theorem slopes_of_flat (p : Vector (Point ℝ) (m + 2)) {k : Fin (m + 1)}
    (small : |(Moments.secants p).get k| < flat) :
    (slopes p).get k.castSucc = 0 ∧ (slopes p).get k.succ = 0 := by
  have hk : k.val < (entries (Moments.secants p)).length := by
    rw [entries, List.length_ofFn]
    exact k.isLt
  have hsmall : |((entries (Moments.secants p)).map Prod.fst).getD k.val 0|
      < flat := by
    rw [map_fst_entries]
    rwa [get_eq_entryOrZero] at small
  have hzero := limitFrom_of_flat (b := (Moments.secants p).get 0)
    (l := (Moments.secants p).get 0) hk hsmall
  rw [← toList_slopes] at hzero
  rw [get_eq_entryOrZero, get_eq_entryOrZero]
  exact hzero

/-- A slope that runs along two secants of different directions is zero. -/
theorem eq_zero_of_turn {x : ℝ} (before : 0 ≤ x * b) (behind : 0 ≤ x * s)
    (turn : b * s < 0) : x = 0 := by
  by_contra hx
  have hneg : x ^ 2 * (b * s) < 0 :=
    mul_neg_of_pos_of_neg (by positivity) turn
  have hnonneg : 0 ≤ x * b * (x * s) := mul_nonneg before behind
  exact absurd hnonneg (not_le.mpr (by linarith))

/-- **THE LIMITED SLOPES** of any points run along the secants on both sides,
    so they are zero where these change their direction.  They are zero at
    both ends of a segment with a secant below `1e-50` in magnitude, and none
    is steeper than it was before the pass: the secant at an end, the mean of
    two secants at an inner point. -/
theorem slopes_restrained (p : Vector (Point ℝ) (m + 2)) :
    ∃ secants : Vector ℝ (m + 1),
      (∀ k, secants.get k
        = ((p.get k.succ).y - (p.get k.castSucc).y)
          / ((p.get k.succ).x - (p.get k.castSucc).x))
        ∧ (∀ k, 0 ≤ (slopes p).get k.castSucc * secants.get k
          ∧ 0 ≤ (slopes p).get k.succ * secants.get k)
        ∧ (∀ k : Fin m, secants.get k.castSucc * secants.get k.succ < 0 →
          (slopes p).get k.succ.castSucc = 0)
        ∧ (∀ k, |secants.get k| < 1e-50 →
          (slopes p).get k.castSucc = 0 ∧ (slopes p).get k.succ = 0)
        ∧ |(slopes p).get 0| ≤ |secants.get 0|
        ∧ |(slopes p).get (Fin.last _)| ≤ |secants.get (Fin.last m)|
        ∧ ∀ k : Fin m, |(slopes p).get k.succ.castSucc|
          ≤ |(secants.get k.castSucc + secants.get k.succ) / 2| := by
  have halong (k : Fin (m + 1)) :
      0 ≤ (slopes p).get k.castSucc * (Moments.secants p).get k
        ∧ 0 ≤ (slopes p).get k.succ * (Moments.secants p).get k :=
    ⟨(tame_slopes p k).left_along, (tame_slopes p k).right_along⟩
  refine ⟨Moments.secants p, fun k => ?_, halong, fun k hturn => ?_,
    fun k => slopes_of_flat p, ?_, ?_, fun k => ?_⟩
  · rw [Moments.get_secants, Moments.get_widths]
  · exact eq_zero_of_turn (halong k.castSucc).2 (halong k.succ).1 hturn
  · rw [← initialSlopes_first (Moments.secants p)]
    exact (partOf_slopes p 0).abs_le
  · rw [← initialSlopes_last (Moments.secants p)]
    exact (partOf_slopes p (Fin.last _)).abs_le
  · rw [← initialSlopes_inner]
    exact (partOf_slopes p k.succ.castSucc).abs_le

end PiecewiseCubic.Limiter
