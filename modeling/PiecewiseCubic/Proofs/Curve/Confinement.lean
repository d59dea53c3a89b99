import PiecewiseCubic.Proofs.Curve.Fit
import PiecewiseCubic.Proofs.Curve.Limiter

/-! # Confined curves

    A segment is confined if its values stay between those of its knots.
    With tame slopes that is so exactly as long as the right slope is not
    above three times the secant; the left one never is.  So a monotonic
    curve is confined wherever the points go on in their direction, and where
    they turn it is confined unless the right slope is too steep. -/

namespace PiecewiseCubic

open Limiter Tridiagonal

variable {b s l r t : ℝ}

/-! ## The rise of a segment -/

/-- How far a segment of width one is above its left knot, at the fraction
    `t` of the way, given its secant and its two slopes. -/
def rise (s l r t : ℝ) : ℝ :=
  s * (t ^ 2 * (1 + (1 - t) + (1 - t))) + l * (t * (1 - t) ^ 2)
    - r * (t ^ 2 * (1 - t))

theorem rise_neg : rise (-s) (-l) (-r) t = -rise s l r t := by
  rw [rise, rise]
  ring

/-- A number lies between two others if it divides their distance. -/
theorem between_iff {u v y : ℝ} :
    (min u v ≤ y ∧ y ≤ max u v) ↔ 0 ≤ (y - u) * (v - y) := by
  rw [mul_nonneg_iff, sub_nonneg, sub_nonneg, sub_nonpos, sub_nonpos,
    min_le_iff, le_max_iff]
  constructor
  · rintro ⟨hu | hv, hu' | hv'⟩
    · exact (le_total y v).imp (fun h => ⟨hu, h⟩) (fun h => ⟨hu', h⟩)
    · exact Or.inl ⟨hu, hv'⟩
    · exact Or.inr ⟨hu', hv⟩
    · exact (le_total u y).imp (fun h => ⟨h, hv'⟩) (fun h => ⟨h, hv⟩)
  · rintro (⟨hu, hv⟩ | ⟨hu, hv⟩)
    · exact ⟨Or.inl hu, Or.inr hv⟩
    · exact ⟨Or.inr hv, Or.inl hu⟩

namespace Limiter.Tame

theorem neg (h : Tame b s l r) : Tame (-b) (-s) (-l) (-r) := by
  obtain ⟨hl, hr, hbounded⟩ := h
  refine ⟨by rwa [neg_mul_neg], by rwa [neg_mul_neg], ?_⟩
  rw [neg_sq, neg_sq, neg_sq, neg_mul_neg, neg_eq_zero]
  exact hbounded

/-- A segment that goes nowhere has two flat ends. -/
theorem eq_zero (h : Tame b 0 l r) : l = 0 ∧ r = 0 := by
  have hcircle : l ^ 2 + r ^ 2 ≤ 9 * 0 ^ 2 :=
    h.bounded.resolve_right fun e => absurd e.2 (by simp)
  constructor <;> nlinarith [sq_nonneg l, sq_nonneg r]

/-- The slopes of a rising segment do not fall. -/
theorem nonneg (h : Tame b s l r) (hs : 0 ≤ s) : 0 ≤ l ∧ 0 ≤ r := by
  rcases hs.eq_or_lt with rfl | hpos
  · obtain ⟨rfl, rfl⟩ := h.eq_zero
    exact ⟨le_refl 0, le_refl 0⟩
  · exact ⟨nonneg_of_mul_nonneg_left h.left_along hpos,
      nonneg_of_mul_nonneg_left h.right_along hpos⟩

/-- The left slope is never too steep. -/
theorem left_le (h : Tame b s l r) (hs : 0 ≤ s) : l ≤ 3 * s := by
  rcases h.bounded with hcircle | ⟨rfl, -⟩
  · refine abs_le_of_sq_le_sq' ?_ (by linarith) |>.2
    nlinarith [sq_nonneg r]
  · linarith

/-- The right slope is too steep only behind a turn with a flat end. -/
theorem right_le_or (h : Tame b s l r) :
    |r| ≤ 3 * |s| ∨ l = 0 ∧ b * s < 0 := by
  refine h.bounded.imp_left fun hcircle => ?_
  rw [← abs_of_pos (three_pos (α := ℝ)), ← abs_mul]
  exact sq_le_sq.mp (by nlinarith [sq_nonneg l])

end Limiter.Tame

/-- Slopes up to three times the secant keep a rising segment confined. -/
theorem rise_mem (hs : 0 ≤ s) (hl : 0 ≤ l) (hl' : l ≤ 3 * s) (hr : 0 ≤ r)
    (hr' : r ≤ 3 * s) (ht₀ : 0 ≤ t) (ht₁ : t ≤ 1) :
    0 ≤ rise s l r t ∧ rise s l r t ≤ s := by
  have h₁ : 0 ≤ 1 - t := sub_nonneg.mpr ht₁
  have hleft : 0 ≤ t * (1 - t) ^ 2 := by positivity
  have hright : 0 ≤ t ^ 2 * (1 - t) := by positivity
  constructor
  · calc
      (0 : ℝ) ≤ s * t ^ 3 := by positivity
      _ = rise s 0 (3 * s) t := by rw [rise]; ring
      _ ≤ rise s l r t := by
        have := mul_le_mul_of_nonneg_right hr' hright
        have := mul_nonneg hl hleft
        rw [rise, rise]
        linarith
  · calc
      rise s l r t ≤ rise s (3 * s) 0 t := by
        have := mul_le_mul_of_nonneg_right hl' hleft
        have := mul_nonneg hr hright
        rw [rise, rise]
        linarith
      _ = s - s * (1 - t) ^ 3 := by rw [rise]; ring
      _ ≤ s := sub_le_self s (by positivity)

/-- Behind a flat left end, a right slope above three times the secant takes
    a rising segment below its left knot. -/
theorem exists_rise_neg (hs : 0 < s) (hr : 3 * s < r) :
    ∃ t : ℝ, 0 ≤ t ∧ t ≤ 1 ∧ rise s 0 r t < 0 := by
  have hpos : 0 < r - 2 * s := by linarith
  refine ⟨(r - 3 * s) / (2 * (r - 2 * s)),
    div_nonneg (by linarith) (by linarith),
    (div_le_one (by linarith)).mpr (by linarith), ?_⟩
  obtain ⟨t, ht⟩ : ∃ t, t = (r - 3 * s) / (2 * (r - 2 * s)) := ⟨_, rfl⟩
  have hmul : t * (2 * (r - 2 * s)) = r - 3 * s := by
    rw [ht, div_mul_cancel₀ _ (by linarith)]
  have htpos : 0 < t := ht ▸ div_pos (by linarith) (by linarith)
  rw [← ht]
  have hrise : rise s 0 r t = -(t ^ 2 * (r - 3 * s)) / 2 := by
    rw [rise]
    linear_combination (t ^ 2 / 2) * hmul
  rw [hrise]
  have : 0 < t ^ 2 * (r - 3 * s) := mul_pos (by positivity) (by linarith)
  linarith

namespace Limiter.Tame

theorem rise_between_iff_of_nonneg (h : Tame b s l r) (hs : 0 ≤ s) :
    (∀ t, 0 ≤ t → t ≤ 1 → 0 ≤ rise s l r t * (s - rise s l r t))
      ↔ r ≤ 3 * s := by
  obtain ⟨hl, hr⟩ := h.nonneg hs
  constructor
  · intro hbetween
    by_contra hsteep
    rw [not_le] at hsteep
    have hpos : 0 < s := by
      refine hs.lt_of_ne fun e => ?_
      subst e
      rw [h.eq_zero.2] at hsteep
      linarith
    -- a right slope outside of the circle is one behind a cut slope
    have hflat : l = 0 := by
      rcases h.bounded with hcircle | ⟨hflat, -⟩
      · nlinarith [sq_nonneg l]
      · exact hflat
    subst hflat
    obtain ⟨t, ht₀, ht₁, hneg⟩ := exists_rise_neg hpos hsteep
    exact absurd (hbetween t ht₀ ht₁)
      (not_le.mpr (mul_neg_of_neg_of_pos hneg (by linarith)))
  · intro hr' t ht₀ ht₁
    obtain ⟨h₀, h₁⟩ := rise_mem hs hl (h.left_le hs) hr hr' ht₀ ht₁
    exact mul_nonneg h₀ (sub_nonneg.mpr h₁)

/-- **BETWEEN ITS KNOTS** a tame segment stays exactly as long as its right
    slope is not above three times the secant. -/
theorem rise_between_iff (h : Tame b s l r) :
    (∀ t, 0 ≤ t → t ≤ 1 → 0 ≤ rise s l r t * (s - rise s l r t))
      ↔ |r| ≤ 3 * |s| := by
  rcases le_total 0 s with hs | hs
  · rw [abs_of_nonneg hs, abs_of_nonneg (h.nonneg hs).2]
    exact h.rise_between_iff_of_nonneg hs
  · -- the mirror image rises
    have hs' : 0 ≤ -s := neg_nonneg.mpr hs
    have hmirror := h.neg.rise_between_iff_of_nonneg hs'
    rw [← abs_neg r, ← abs_neg s, abs_of_nonneg hs',
      abs_of_nonneg (h.neg.nonneg hs').2, ← hmirror]
    refine forall_congr' fun t => forall_congr' fun _ =>
      forall_congr' fun _ => ?_
    rw [rise_neg, neg_sub_neg, neg_mul, ← mul_neg, neg_sub]

end Limiter.Tame

/-! ## Segments -/

namespace Segment

/-- Between its knots a segment has values between theirs. -/
def Confined (s : Segment ℝ) : Prop :=
  ∀ x, s.left.x ≤ x → x ≤ s.right.x →
    min s.left.y s.right.y ≤ s.eval .value x
      ∧ s.eval .value x ≤ max s.left.y s.right.y

variable {s : Segment ℝ}

theorem eval_value_sub_left_eq_rise (hw : s.width ≠ 0) (x : ℝ) :
    s.eval .value x - s.left.y
      = s.width * rise s.secant s.left.slope s.right.slope
        (s.fraction x) := by
  rw [s.eval_value_sub_left hw, rise]
  ring

/-- A value is between those of the knots if the rise up to it and that
    behind it have one sign. -/
theorem between_iff_rise (hw : 0 < s.width) (x : ℝ) :
    (min s.left.y s.right.y ≤ s.eval .value x
      ∧ s.eval .value x ≤ max s.left.y s.right.y)
      ↔ 0 ≤ rise s.secant s.left.slope s.right.slope (s.fraction x)
        * (s.secant
          - rise s.secant s.left.slope s.right.slope (s.fraction x)) := by
  have hbelow := eval_value_sub_left_eq_rise hw.ne' x
  have habove : s.right.y - s.eval .value x
      = s.width * (s.secant
        - rise s.secant s.left.slope s.right.slope (s.fraction x)) := by
    rw [s.right_y_eq hw.ne']
    linear_combination -hbelow
  rw [between_iff, hbelow, habove, mul_mul_mul_comm,
    mul_nonneg_iff_of_pos_left (mul_pos hw hw)]

theorem confined_iff (hw : 0 < s.width) {b : ℝ}
    (tame : Tame b s.secant s.left.slope s.right.slope) :
    s.Confined ↔ |s.right.slope| ≤ 3 * |s.secant| := by
  rw [← tame.rise_between_iff]
  constructor
  · intro h t ht₀ ht₁
    obtain ⟨x, h₀, h₁, rfl⟩ := s.exists_fraction_eq hw ht₀ ht₁
    exact (between_iff_rise hw x).mp (h x h₀ h₁)
  · intro h x h₀ h₁
    obtain ⟨ht₀, ht₁⟩ := s.fraction_mem hw h₀ h₁
    exact (between_iff_rise hw x).mpr (h _ ht₀ ht₁)

end Segment

/-! ## Curves -/

namespace Curve

/-- Between two neighbouring knots the curve answers with a value between
    theirs. -/
def ConfinedOn (c : Curve ℝ) (i : Fin (c.inner + 1)) : Prop :=
  ∀ x extrapolate, (c.segment i).left.x ≤ x → x ≤ (c.segment i).right.x →
    ∃ v, c.eval .value extrapolate x = .ok v
      ∧ min (c.segment i).left.y (c.segment i).right.y ≤ v
      ∧ v ≤ max (c.segment i).left.y (c.segment i).right.y

theorem Ascending.confinedOn_iff {c : Curve ℝ} (asc : c.Ascending)
    (i : Fin (c.inner + 1)) : c.ConfinedOn i ↔ (c.segment i).Confined := by
  have heval : ∀ x extrapolate, (c.segment i).left.x ≤ x →
      x ≤ (c.segment i).right.x →
      c.eval .value extrapolate x = .ok ((c.segment i).eval .value x) := by
    intro x extrapolate h₀ h₁
    obtain ⟨hmin, hmax⟩ := asc.segment_mem i
    rw [eval_eq_inside (hmin.trans h₀) (h₁.trans hmax),
      asc.inside_eq asc.agrees_value h₀ h₁]
  constructor
  · intro h x h₀ h₁
    obtain ⟨v, hv, hbetween⟩ := h x false h₀ h₁
    obtain rfl := Except.ok.inj ((heval x false h₀ h₁).symm.trans hv)
    exact hbetween
  · intro h x extrapolate h₀ h₁
    exact ⟨_, heval x extrapolate h₀ h₁, h x h₀ h₁⟩

variable {m : ℕ} {p : Vector (Point ℝ) (m + 2)}

/-- The slopes of a monotonic curve are tame on each segment. -/
theorem tame_segment (i : Fin (m + 1)) :
    Tame ((Moments.secants p).get (placeBefore i))
      ((ofSlopes .monotonic p (Limiter.slopes p)).segment i).secant
      ((ofSlopes .monotonic p (Limiter.slopes p)).segment i).left.slope
      ((ofSlopes .monotonic p (Limiter.slopes p)).segment i).right.slope := by
  rw [secant_ofSlopes, segment_ofSlopes]
  exact tame_slopes p i

/-- Nothing turns at the first point. -/
theorem exists_turn {i : Fin (m + 1)}
    (turn : (Moments.secants p).get (placeBefore i)
      * (Moments.secants p).get i < 0) :
    ∃ j : Fin (m + 1), j.val + 1 = i.val
      ∧ (Moments.secants p).get j * (Moments.secants p).get i < 0 := by
  refine ⟨placeBefore i, val_placeBefore_add_one ?_, turn⟩
  by_contra hfirst
  have hsame : placeBefore i = i :=
    Fin.ext (by show i.val - 1 = i.val; omega)
  rw [hsame] at turn
  exact absurd turn (not_lt.mpr (mul_self_nonneg _))

/-- **WHERE A MONOTONIC CURVE IS CONFINED**: through two points or more in
    order there is a monotonic curve, and between two knots it stays between
    their values exactly if the slope at the right knot is not above three
    times the secant.  That can only fail behind a knot where the points turn
    and the curve is flat. -/
theorem fit_monotonic_confined_iff (sort : Bool) (points : List (Point ℝ))
    (two : 2 ≤ points.length) (order : InOrder sort points) :
    ∃ c : Curve ℝ, (fit .monotonic sort points).result = .ok c
      ∧ c.points.toList = arrange sort points
      ∧ ∀ i : Fin (c.inner + 1),
        (c.ConfinedOn i
          ↔ |(c.segment i).right.slope| ≤ 3 * |(c.segment i).secant|)
        ∧ (¬ c.ConfinedOn i → (c.segment i).left.slope = 0
          ∧ ∃ j : Fin (c.inner + 1), j.val + 1 = i.val
            ∧ (c.segment j).secant * (c.segment i).secant < 0) := by
  obtain ⟨m, p, -, hp, asc, hfit⟩ := order.exists_through two
  have hasc := ascending_ofSlopes .monotonic (Limiter.slopes p) asc
  obtain ⟨hresult, hpoints⟩ := fit_of_slopes (hfit .monotonic) hp rfl
  refine ⟨_, hresult, hpoints, fun (i : Fin (m + 1)) => ?_⟩
  have tame := tame_segment (p := p) i
  have hiff := (hasc.confinedOn_iff i).trans
    (Segment.confined_iff (hasc.width_pos i) tame)
  refine ⟨hiff, fun hnot => ?_⟩
  obtain ⟨hflat, hturn⟩ := tame.right_le_or.resolve_left (hiff.not.mp hnot)
  rw [secant_ofSlopes] at hturn
  obtain ⟨j, hj, hturn⟩ := exists_turn hturn
  refine ⟨hflat, j, hj, ?_⟩
  rwa [secant_ofSlopes, secant_ofSlopes]

open Scalar in
/-- Points that fall, turn, and then rise steeply. -/
def steepTurn {α : Type} [Scalar α] : Vector (Point α) 4 :=
  #v[⟨0, 0⟩, ⟨1, -2⟩, ⟨2, -1⟩, ⟨3, 19⟩]

theorem secants_steepTurn :
    Moments.secants (steepTurn : Vector (Point ℝ) 4) = #v[-2, 1, 20] := by
  have hget : ∀ k : Fin 3, (Moments.secants steepTurn).get k
      = (#v[-2, 1, 20] : Vector ℝ 3).get k := by
    intro k
    rw [Moments.get_secants, Moments.get_widths]
    fin_cases k
    · show ((-2 : ℝ) - 0) / (1 - 0) = -2
      norm_num
    · show ((-1 : ℝ) - -2) / (2 - 1) = 1
      norm_num
    · show ((19 : ℝ) - -1) / (3 - 2) = 20
      norm_num
  exact Vector.ext fun i hi => hget ⟨i, hi⟩

/-- At the turn the left slope is cut, and the right one stays too steep. -/
theorem slopes_steepTurn :
    (Limiter.slopes (steepTurn : Vector (Point ℝ) 4)).toList
      = [-2, 0, 21 / 2, 20] := by
  have hentries : entries (#v[-2, 1, 20] : Vector ℝ 3)
      = [(-2, -1 / 2), (1, 21 / 2), (20, 20)] := by
    show [((-2 : ℝ), ((-2 : ℝ) + 1) / 2), (1, ((1 : ℝ) + 20) / 2), (20, 20)]
      = _
    norm_num
  have hsteep : ∀ {s : ℝ}, 1 ≤ |s| → ¬ |s| < flat := fun h =>
    not_lt.mpr (le_trans (by show (1e-50 : ℝ) ≤ 1; norm_num) h)
  rw [toList_slopes, secants_steepTurn, hentries]
  show limitFrom (some (-2)) (-2) _ = _
  rw [limitFrom_kept (hsteep (by norm_num)) (by norm_num) (by norm_num),
    limitFrom_wrongSign (hsteep (by norm_num)) (by norm_num),
    limitFrom_kept (hsteep (by norm_num)) (by norm_num) (by norm_num)]
  rfl

/-- Behind a steep turn the curve leaves the range of its points. -/
theorem fit_monotonic_confined_iff_steepTurn :
    2 ≤ (steepTurn : Vector (Point ℝ) 4).toList.length
      ∧ InOrder false steepTurn.toList
      ∧ ∃ c : Curve ℝ, (fit .monotonic false steepTurn.toList).result = .ok c
        ∧ ∃ i, ¬ c.ConfinedOn i := by
  have asc : (steepTurn : Vector (Point ℝ) 4).toList.Pairwise
      fun p q => p.x < q.x := by
    show [(⟨0, 0⟩ : Point ℝ), ⟨1, -2⟩, ⟨2, -1⟩, ⟨3, 19⟩].Pairwise _
    norm_num
  have harrange := arrange_of_ascending asc
  have order : InOrder false (steepTurn : Vector (Point ℝ) 4).toList := by
    rwa [InOrder, harrange]
  have two : 2 ≤ (steepTurn : Vector (Point ℝ) 4).toList.length := by
    rw [Vector.length_toList]
    decide
  obtain ⟨c, hc, -, hiff⟩ :=
    fit_monotonic_confined_iff false steepTurn.toList two order
  refine ⟨two, order, c, hc, ?_⟩
  have hresult : (fit .monotonic false
        (steepTurn : Vector (Point ℝ) 4).toList).result
      = .ok (ofSlopes .monotonic steepTurn
        (Limiter.slopes (steepTurn : Vector (Point ℝ) (2 + 2)))) := by
    rw [fit, harrange]
    exact result_through (p := steepTurn) rfl
  obtain rfl := Except.ok.inj (hc.symm.trans hresult)
  refine ⟨(1 : Fin 3), (hiff (1 : Fin 3)).1.not.mpr (not_le.mpr ?_)⟩
  have hslope : (Limiter.slopes (steepTurn : Vector (Point ℝ) 4)).get 2
      = 21 / 2 := by
    rw [get_eq_entryOrZero, entryOrZero, slopes_steepTurn]
    rfl
  rw [secant_ofSlopes, segment_ofSlopes, secants_steepTurn]
  show 3 * |(1 : ℝ)|
    < |(Limiter.slopes (steepTurn : Vector (Point ℝ) 4)).get 2|
  rw [hslope]
  norm_num

end Curve

end PiecewiseCubic
