import PiecewiseCubic.Proofs.Curve.Crossing

/-! # Where a curve meets a polynomial

    The search for a crossing answers a position where the curve has the value
    of the polynomial, and it reports none or several exactly as it should,
    where the curve does not follow the polynomial on a whole segment.  Where
    it does, that segment is passed over: the crossing that is answered is the
    only one on the others. -/

namespace PiecewiseCubic.Curve

variable {c : Curve ℝ} {p : Cubic ℝ} {lo hi z : ℝ}

/-- The curve has the value of the polynomial. -/
def Meets (c : Curve ℝ) (p : Cubic ℝ) (z : ℝ) : Prop :=
  c.eval .value false z = .ok (p.a * z ^ 3 + p.b * z ^ 2 + p.c * z + p.d)

/-- On a whole segment the curve is the polynomial. -/
def Follows (c : Curve ℝ) (p : Cubic ℝ) (i : Fin (c.inner + 1)) : Prop :=
  ∀ z, (c.segment i).left.x ≤ z → z ≤ (c.segment i).right.x → c.Meets p z

theorem Ascending.meets_iff (asc : c.Ascending) {i : Fin (c.inner + 1)}
    (h₀ : (c.segment i).left.x ≤ z) (h₁ : z ≤ (c.segment i).right.x) :
    c.Meets p z ↔ (c.segment i).eval .value z = p.eval z := by
  obtain ⟨hmin, hmax⟩ := asc.segment_mem i
  rw [Meets, eval_eq_inside (hmin.trans h₀) (h₁.trans hmax),
    asc.inside_eq asc.agrees_value h₀ h₁, ← Cubic.eval_eq, Except.ok.injEq]

/-- What is found lies between the two positions, and the curve meets the
    polynomial there. -/
theorem Ascending.meets_of_mem (asc : c.Ascending)
    (hz : z ∈ c.crossingsBetween p lo hi) :
    lo ≤ z ∧ z ≤ hi ∧ c.Meets p z := by
  obtain ⟨i, -, -, h₀, h₁, heq⟩ := hz
  obtain ⟨hleft, hlo⟩ := max_le_iff.mp h₀
  obtain ⟨hright, hhi⟩ := le_min_iff.mp h₁
  exact ⟨hlo, hhi, (asc.meets_iff hleft hright).mpr heq⟩

theorem Ascending.follows_of_vanishes (asc : c.Ascending)
    {i : Fin (c.inner + 1)} (h : ((c.segment i).difference p).Vanishes) :
    c.Follows p i := fun z h₀ h₁ =>
  (asc.meets_iff h₀ h₁).mpr
    (Segment.eval_eq_of_vanishes (asc.width_ne_zero i) h z)

/-- **WHERE THE CURVE MEETS THE POLYNOMIAL** is found, unless it is on a
    segment where the curve follows the polynomial. -/
theorem Ascending.mem_or_follows (asc : c.Ascending) (hmin : c.xMin ≤ lo)
    (hmax : hi ≤ c.xMax) (h₀ : lo ≤ z) (h₁ : z ≤ hi) (hz : c.Meets p z) :
    z ∈ c.crossingsBetween p lo hi
      ∨ ∃ i ∈ c.segmentsBetween lo hi, c.Follows p i
        ∧ (c.segment i).left.x ≤ z ∧ z ≤ (c.segment i).right.x := by
  obtain ⟨hleft, hright⟩ := asc.mem_segment (hmin.trans h₀) (h₁.trans hmax)
  have hmem : c.segmentIndex z ∈ c.segmentsBetween lo hi :=
    c.mem_segmentsBetween.mpr
      ⟨asc.segmentIndex_mono h₀, asc.segmentIndex_mono h₁⟩
  by_cases hvanish : ((c.segment (c.segmentIndex z)).difference p).Vanishes
  · exact Or.inr ⟨_, hmem, asc.follows_of_vanishes hvanish, hleft, hright⟩
  · exact Or.inl ⟨_, hmem, hvanish, max_le hleft h₀, le_min hright h₁,
      (asc.meets_iff hleft hright).mp hz⟩

/-! ## A curve with a flat part -/

open Scalar in
/-- Flat up to the second knot and steep behind it. -/
def flatThenSteep {α : Type} [Scalar α] : Curve α where
  family := .monotonic
  inner := 1
  knots := #v[⟨0, 0, 0⟩, ⟨1, 0, 0⟩, ⟨4, 27, 9⟩]

theorem ascending_flatThenSteep : (flatThenSteep : Curve ℝ).Ascending := by
  refine sorted_of_pairwise ?_
  show [(⟨0, 0, 0⟩ : Knot ℝ), ⟨1, 0, 0⟩, ⟨4, 27, 9⟩].Pairwise _
  simp

theorem localCubic_flatThenSteep :
    ((flatThenSteep : Curve ℝ).segment (0 : Fin 2)).localCubic = ⟨0, 0, 0, 0⟩
      ∧ ((flatThenSteep : Curve ℝ).segment (1 : Fin 2)).localCubic
        = ⟨-1, 6, 0, 0⟩ := by
  have hflat : ((0 : ℝ) + 0 - 2 * ((0 - 0) / (1 - 0))) / (1 - 0) ^ 2 = 0
      ∧ ((3 : ℝ) * ((0 - 0) / (1 - 0)) - 2 * 0 - 0) / (1 - 0) = 0 := by
    norm_num
  have hsteep : ((0 : ℝ) + 9 - 2 * ((27 - 0) / (4 - 1))) / (4 - 1) ^ 2 = -1
      ∧ ((3 : ℝ) * ((27 - 0) / (4 - 1)) - 2 * 0 - 9) / (4 - 1) = 6 := by
    norm_num
  exact ⟨congrArg₂ (fun a b => Cubic.mk a b 0 0) hflat.1 hflat.2,
    congrArg₂ (fun a b => Cubic.mk a b 0 0) hsteep.1 hsteep.2⟩

theorem eval_flatThenSteep (z : ℝ) :
    ((flatThenSteep : Curve ℝ).segment (0 : Fin 2)).eval .value z = 0
      ∧ ((flatThenSteep : Curve ℝ).segment (1 : Fin 2)).eval .value z
        = (z - 1) ^ 2 * (7 - z) := by
  obtain ⟨hflat, hsteep⟩ := localCubic_flatThenSteep
  have hw := ascending_flatThenSteep.width_ne_zero
  constructor
  · rw [Segment.eval_value_eq_localCubic _ (hw (0 : Fin 2)), hflat,
      Cubic.eval_eq]
    ring
  · rw [Segment.eval_value_eq_localCubic _ (hw (1 : Fin 2)), hsteep,
      Cubic.eval_eq]
    show -1 * (z - 1) ^ 3 + 6 * (z - 1) ^ 2 + 0 * (z - 1) + 0 = _
    ring

theorem covers_flatThenSteep {x : ℝ} (h₀ : 0 ≤ x) (h₁ : x ≤ 4) :
    (flatThenSteep : Curve ℝ).covers x = true :=
  (covers_iff _ x).mpr ⟨h₀, h₁⟩

theorem meets_flatThenSteep {p : Cubic ℝ} {z : ℝ} :
    (0 ≤ z → z ≤ 1 → ((flatThenSteep : Curve ℝ).Meets p z ↔ 0 = p.eval z))
      ∧ (1 ≤ z → z ≤ 4 → ((flatThenSteep : Curve ℝ).Meets p z
        ↔ (z - 1) ^ 2 * (7 - z) = p.eval z)) := by
  constructor <;> intro h₀ h₁
  · rw [ascending_flatThenSteep.meets_iff (i := (0 : Fin 2)) h₀ h₁,
      (eval_flatThenSteep z).1]
  · rw [ascending_flatThenSteep.meets_iff (i := (1 : Fin 2)) h₀ h₁,
      (eval_flatThenSteep z).2]

/-- Where the curve is flat it is passed over, and one crossing is left. -/
theorem crossingsBetween_flatThenSteep :
    (flatThenSteep : Curve ℝ).crossingsBetween ⟨0, 0, 0, 0⟩ 0 4 = {1} := by
  obtain ⟨hflat, hsteep⟩ := localCubic_flatThenSteep
  ext z
  rw [Set.mem_singleton_iff]
  constructor
  · rintro ⟨(i : Fin 2), -, hne, h₀, h₁, heq⟩
    rcases Fin.exists_fin_two.mp ⟨i, rfl⟩ with rfl | rfl
    · refine absurd ?_ hne
      rw [Segment.difference, hflat]
      exact ⟨sub_self 0, by show (0 : ℝ) - (3 * 0 * 0 + 0) = 0; norm_num,
        by show (0 : ℝ) - ((3 * 0 * 0 + 2 * 0) * 0 + 0) = 0; norm_num,
        by show (0 : ℝ) - (((0 * 0 + 0) * 0 + 0) * 0 + 0) = 0; norm_num⟩
    · have h₁' : z ≤ 4 := h₁.trans (min_le_right _ _)
      rw [(eval_flatThenSteep z).2, Cubic.eval_eq] at heq
      have hprod : (z - 1) ^ 2 * (7 - z) = 0 := by
        rw [heq]
        ring
      have hsq := (mul_eq_zero.mp hprod).resolve_right (by linarith)
      exact sub_eq_zero.mp (pow_eq_zero_iff two_ne_zero |>.mp hsq)
  · rintro rfl
    refine ⟨(1 : Fin 2), mem_segmentsBetween _ |>.mpr
      ⟨ascending_flatThenSteep.segmentIndex_le (Or.inl rfl),
        ascending_flatThenSteep.le_segmentIndex (Or.inr ?_)⟩,
      fun hvanish => ?_, max_le (le_refl _) zero_le_one, le_min ?_ ?_, ?_⟩
    · show (1 : ℝ) ≤ 4
      norm_num
    · rw [Segment.difference, hsteep] at hvanish
      have ha : (-1 : ℝ) - 0 = 0 := hvanish.1
      norm_num at ha
    · show (1 : ℝ) ≤ 4
      norm_num
    · norm_num
    · rw [(eval_flatThenSteep 1).2, Cubic.eval_eq]
      ring

theorem crossing_flatThenSteep :
    (flatThenSteep : Curve ℝ).crossing 0 4 ⟨0, 0, 0, 0⟩ = .ok 1 := by
  have hle : (0 : ℝ) ≤ 4 := by norm_num
  have hcases := crossing_cases ascending_flatThenSteep
    (covers_flatThenSteep (le_refl 0) hle)
    (covers_flatThenSteep hle (le_refl 4)) ⟨0, 0, 0, 0⟩
  rw [min_eq_left hle, max_eq_right hle, crossingsBetween_flatThenSteep]
    at hcases
  rcases hcases with
    ⟨r, rfl, hrun, -⟩ | ⟨-, hnone⟩ | ⟨n, -, -, y, rfl, z, rfl, hne⟩
  · exact hrun
  · exact absurd hnone (Set.singleton_ne_empty 1)
  · exact absurd rfl hne

/-! ## What is answered -/

/-- **CROSSINGS ARE EXACT**: what is answered is a crossing between the two
    positions, and more than one is reported only if there are two that
    differ.  None is reported exactly if there is none, where the curve does
    not follow the polynomial on any segment of the search. -/
theorem crossing_exact (asc : c.Ascending) {x₀ x₁ : ℝ}
    (h₀ : c.covers x₀ = true) (h₁ : c.covers x₁ = true) (p : Cubic ℝ) :
    ((∃ r, c.crossing x₀ x₁ p = .ok r) ∨ ∃ n, n ≠ 1
        ∧ c.crossing x₀ x₁ p
          = .error (.crossings n (min x₀ x₁) (max x₀ x₁)))
      ∧ (∀ r, c.crossing x₀ x₁ p = .ok r →
        min x₀ x₁ ≤ r ∧ r ≤ max x₀ x₁ ∧ c.Meets p r)
      ∧ ((∀ i ∈ c.segmentsBetween (min x₀ x₁) (max x₀ x₁),
          ¬ c.Follows p i) →
        (c.crossing x₀ x₁ p
            = .error (.crossings 0 (min x₀ x₁) (max x₀ x₁)) ↔
          ∀ z, min x₀ x₁ ≤ z → z ≤ max x₀ x₁ → ¬ c.Meets p z))
      ∧ ∀ n first last, 2 ≤ n →
        c.crossing x₀ x₁ p = .error (.crossings n first last) →
        ∃ y z, y ≠ z ∧ (min x₀ x₁ ≤ y ∧ y ≤ max x₀ x₁ ∧ c.Meets p y)
          ∧ min x₀ x₁ ≤ z ∧ z ≤ max x₀ x₁ ∧ c.Meets p z := by
  rcases crossing_cases asc h₀ h₁ p with
    ⟨r, hr, hrun, -⟩ | ⟨hrun, hnone⟩ | ⟨n, hn, hrun, y, hy, z, hz, hne⟩
  · have hmeets := asc.meets_of_mem hr
    rw [hrun]
    refine ⟨Or.inl ⟨r, rfl⟩, fun r' hr' => ?_,
      fun _ => iff_of_false (nofun) ?_, nofun⟩
    · rwa [← Except.ok.inj hr']
    · exact fun h => h r hmeets.1 hmeets.2.1 hmeets.2.2
  · rw [hrun]
    refine ⟨Or.inr ⟨0, zero_ne_one, rfl⟩, nofun, fun leaves =>
      iff_of_true rfl fun z hlo hhi hz => ?_, fun n first last hn h => ?_⟩
    · rcases asc.mem_or_follows (xMin_le_min h₀ h₁) (max_le_xMax h₀ h₁) hlo
        hhi hz with hmem | ⟨i, hi, hfollows, -⟩
      · rw [hnone] at hmem
        exact hmem
      · exact leaves i hi hfollows
    · injection h with h
      injection h with h
      omega
  · rw [hrun]
    refine ⟨Or.inr ⟨n, by omega, rfl⟩, nofun,
      fun _ => iff_of_false (fun h => ?_) ?_,
      fun _ _ _ _ _ => ⟨y, z, hne, asc.meets_of_mem hy, asc.meets_of_mem hz⟩⟩
    · injection h with h
      injection h with h
      omega
    · obtain ⟨hlo, hhi, hmeets⟩ := asc.meets_of_mem hy
      exact fun h => h y hlo hhi hmeets

/-- At the height of five the steep part is crossed and the flat one is
    not. -/
theorem crossing_exact_flatThenSteep :
    (∀ i ∈ (flatThenSteep : Curve ℝ).segmentsBetween (min 4 0) (max 4 0),
      ¬ (flatThenSteep : Curve ℝ).Follows ⟨0, 0, 0, 5⟩ i)
    ∧ (flatThenSteep : Curve ℝ).crossing 4 0 ⟨0, 0, 0, 5⟩
      ≠ .error (.crossings 0 (min 4 0) (max 4 0))
    ∧ (flatThenSteep : Curve ℝ).crossing 1 0 ⟨0, 0, 0, 5⟩
      = .error (.crossings 0 (min 1 0) (max 1 0)) := by
  have hheight : ∀ x : ℝ, (Cubic.mk 0 0 0 5).eval x = (5 : ℝ) := by
    intro x
    rw [Cubic.eval_eq]
    ring
  have hflat : ∀ z : ℝ, 0 ≤ z → z ≤ 1 →
      ¬ (flatThenSteep : Curve ℝ).Meets ⟨0, 0, 0, 5⟩ z := by
    intro z h₀ h₁
    rw [meets_flatThenSteep.1 h₀ h₁, hheight]
    norm_num
  have hleaves : ∀ i : Fin 2,
      ¬ (flatThenSteep : Curve ℝ).Follows ⟨0, 0, 0, 5⟩ i := by
    intro i hfollows
    rcases Fin.exists_fin_two.mp ⟨i, rfl⟩ with rfl | rfl
    · exact hflat 0 (le_refl 0) zero_le_one (hfollows 0 (le_refl 0) zero_le_one)
    · refine hflat 1 zero_le_one (le_refl 1) (hfollows 1 (le_refl 1) ?_)
      show (1 : ℝ) ≤ 4
      norm_num
  have hcovers : ∀ x : ℝ, 0 ≤ x → x ≤ 4 →
      (flatThenSteep : Curve ℝ).covers x = true := fun x =>
    covers_flatThenSteep
  refine ⟨fun i _ => hleaves i, fun hrun => ?_, ?_⟩
  · have hnone := ((crossing_exact ascending_flatThenSteep
      (hcovers 4 (by norm_num) (le_refl 4))
      (hcovers 0 (le_refl 0) (by norm_num))
      ⟨0, 0, 0, 5⟩).2.2.1 fun i _ => hleaves i).mp hrun
    refine hnone 2 (by norm_num) (by norm_num) ?_
    rw [meets_flatThenSteep.2 (by norm_num) (by norm_num), hheight]
    norm_num
  · refine ((crossing_exact ascending_flatThenSteep
      (hcovers 1 (by norm_num) (by norm_num))
      (hcovers 0 (le_refl 0) (by norm_num))
      ⟨0, 0, 0, 5⟩).2.2.1 fun i _ => hleaves i).mpr fun z h₀ h₁ => ?_
    rw [min_eq_right zero_le_one] at h₀
    rw [max_eq_left zero_le_one] at h₁
    exact hflat z h₀ h₁

/-- **A CROSSING THAT IS ANSWERED STANDS ALONE**, up to the distance at which
    crossings count as one, but for those on a segment where the curve
    follows the polynomial: these are passed over. -/
theorem crossing_alone (asc : c.Ascending) {x₀ x₁ : ℝ}
    (h₀ : c.covers x₀ = true) (h₁ : c.covers x₁ = true) {r : ℝ}
    (hr : c.crossing x₀ x₁ p = .ok r) :
    (min x₀ x₁ ≤ r ∧ r ≤ max x₀ x₁ ∧ c.Meets p r)
      ∧ ∀ z, min x₀ x₁ ≤ z → z ≤ max x₀ x₁ → c.Meets p z →
        |z - r| ≤ 1e-14 + 1e-12 * |r|
          ∨ ∃ i ∈ c.segmentsBetween (min x₀ x₁) (max x₀ x₁), c.Follows p i
            ∧ (c.segment i).left.x ≤ z ∧ z ≤ (c.segment i).right.x := by
  rcases crossing_cases asc h₀ h₁ p with
    ⟨r', hr', hrun, hclose⟩ | ⟨hrun, -⟩ | ⟨n, -, hrun, -⟩
  · obtain rfl := Except.ok.inj (hrun.symm.trans hr)
    refine ⟨asc.meets_of_mem hr', fun z hlo hhi hz => ?_⟩
    refine (asc.mem_or_follows (xMin_le_min h₀ h₁) (max_le_xMax h₀ h₁) hlo
      hhi hz).imp_left fun hmem => ?_
    exact isClose_iff.mp (hclose z hmem)
  · exact nomatch hrun.symm.trans hr
  · exact nomatch hrun.symm.trans hr

/-- The flat part has the answered crossing at its end and others far from
    it. -/
theorem crossing_alone_flatThenSteep :
    (flatThenSteep : Curve ℝ).crossing 0 4 ⟨0, 0, 0, 0⟩ = .ok 1
      ∧ (flatThenSteep : Curve ℝ).Meets ⟨0, 0, 0, 0⟩ 0
      ∧ ¬ |(0 : ℝ) - 1| ≤ 1e-14 + 1e-12 * |1|
      ∧ ∃ i, (flatThenSteep : Curve ℝ).Follows ⟨0, 0, 0, 0⟩ i := by
  have hmeets : (flatThenSteep : Curve ℝ).Meets ⟨0, 0, 0, 0⟩ 0 := by
    rw [meets_flatThenSteep.1 (le_refl 0) zero_le_one, Cubic.eval_eq]
    ring
  have hfar : ¬ |(0 : ℝ) - 1| ≤ 1e-14 + 1e-12 * |1| := by norm_num
  have halone := (crossing_alone ascending_flatThenSteep
    (covers_flatThenSteep (le_refl 0) (by norm_num))
    (covers_flatThenSteep (by norm_num) (le_refl 4))
    crossing_flatThenSteep).2 0 (min_le_left 0 4) (le_max_left 0 4) hmeets
  obtain ⟨i, -, hfollows, -⟩ := halone.resolve_left hfar
  exact ⟨crossing_flatThenSteep, hmeets, hfar, i, hfollows⟩

end PiecewiseCubic.Curve
