import PiecewiseCubic.Proofs.Curve.Table
import PiecewiseCubic.Proofs.Ends

/-! # Flags on the straight continuations

    An interval that lies outside of the range has one piece, the straight
    continuation at that side.  It counts as constant if its slope is
    negligible, while the flag of a table goes by the bare sign of the slope.
    So the two agree on every slope that is not negligible; on one that is,
    the flag still tells the direction that the line has. -/

namespace PiecewiseCubic

/-- One piece is the whole. -/
theorem Monotonicity.reduce_singleton (m : Monotonicity) :
    reduce .constant [m] = m := by
  cases m <;> rfl

namespace Curve

open Monotonicity

variable {c : Curve ℝ} {step x y x₀ x₁ : ℝ} {k : ℤ}

/-! ## One piece -/

namespace Ascending

variable (asc : c.Ascending)

include asc

/-- **BEFORE THE RANGE** there is one piece. -/
theorem pieceTrends_before (hlt : x < y) (hy : y ≤ c.xMin) :
    c.pieceTrends x y = [.ofSlope c.leftSlope negligible] := by
  have hx : x < c.xMin := hlt.trans_le hy
  have hmax : y ≤ c.xMax := hy.trans asc.xMin_lt_xMax.le
  have hnone : ¬ Scalar.max x c.xMin < Scalar.min y c.xMax := by
    rw [Exact.max_eq, Exact.min_eq, max_eq_right hx.le, min_eq_left hmax]
    exact hy.not_gt
  rw [pieceTrends, if_pos hx, if_neg hnone, if_neg hmax.not_gt]
  rfl

/-- **BEHIND THE RANGE** there is one piece. -/
theorem pieceTrends_behind (hlt : x < y) (hx : c.xMax ≤ x) :
    c.pieceTrends x y = [.ofSlope c.rightSlope negligible] := by
  have hy : c.xMax < y := hx.trans_lt hlt
  have hmin : c.xMin ≤ x := asc.xMin_lt_xMax.le.trans hx
  have hnone : ¬ Scalar.max x c.xMin < Scalar.min y c.xMax := by
    rw [Exact.max_eq, Exact.min_eq, max_eq_left hmin, min_eq_right hy.le]
    exact hx.not_gt
  rw [pieceTrends, if_neg hmin.not_gt, if_neg hnone, if_pos hy]
  rfl

/-- From the last knot on a curve has the slope of its continuation. -/
theorem continued_first_behind (hx : c.xMax ≤ x) :
    c.continued .first x = c.rightSlope := by
  rcases hx.lt_or_eq with hlt | rfl
  · exact asc.sorted.continued_of_xMax_lt hlt .first
  · rw [continued_eq_inside asc.xMin_lt_xMax.le (le_refl _), asc.inside_xMax]
    rfl

/-- **OUTSIDE OF THE RANGE** the curve runs as its slope there says. -/
theorem pieceTrends_outside (hlt : x < y)
    (outside : y ≤ c.xMin ∨ c.xMax ≤ x) :
    c.pieceTrends x y = [.ofSlope (c.continued .first x) negligible] := by
  rcases outside with hy | hx
  · rw [asc.pieceTrends_before hlt hy,
      asc.sorted.continued_of_lt_xMin (hlt.trans_le hy)]
    rfl
  · rw [asc.pieceTrends_behind hlt hx, asc.continued_first_behind hx]

/-- The slope outside of the range is that at the nearer end. -/
theorem eval_nearer_end (hlt : x < y) :
    (y ≤ c.xMin → c.eval .first false c.xMin = .ok (c.continued .first x))
      ∧ (c.xMax ≤ x →
        c.eval .first false c.xMax = .ok (c.continued .first x)) := by
  refine ⟨fun hy => ?_, fun hx => ?_⟩
  · rw [asc.sorted.continued_of_lt_xMin (hlt.trans_le hy)]
    exact asc.eval_xMin .first false
  · rw [asc.continued_first_behind hx]
    exact asc.eval_xMax .first false

/-! ## One line -/

/-- **THE FLAG OUTSIDE** goes by the sign of the slope, which decides if the
    slope is not negligible.  The end of the range is not outside. -/
theorem ahead_outside (hstep : 0 < step)
    (outside : x + step ≤ c.xMin ∨ c.xMax ≤ x)
    (decides : c.covers x = true ∨ negligible < |c.continued .first x|) :
    c.ahead step x = .ofSlope (c.continued .first x) negligible := by
  rw [ahead]
  split_ifs with hx
  · rw [asc.pieceTrends_outside (lt_add_of_pos_right x hstep) outside,
      reduce_singleton]
  · exact (ofSlope_of_lt (decides.resolve_left hx)).symm

end Ascending

/-- The first line is at the lower end. -/
theorem line_mem_table (c : Curve ℝ) (hlt : x₀ < x₁) (hk : 1 ≤ k) :
    ∃ lines, c.table x₀ x₁ k = ⟨lines, none⟩
      ∧ c.line (|x₁ - x₀| / k) x₀ ∈ lines := by
  refine ⟨_, c.table_of_ne hlt.ne hk, List.mem_map.mpr ⟨x₀, ?_, rfl⟩⟩
  refine List.mem_map.mpr ⟨0, List.mem_range.mpr (by omega), ?_⟩
  rw [Nat.cast_zero, zero_mul, add_zero, min_eq_left hlt.le]

/-- **FLAGS OUTSIDE OF THE RANGE**: in a table between two positions that
    differ, the interval behind a line that lies outside of the range runs as
    the slope in that line says, which is that at the nearer end.  The flag
    tells the same if the slope is more than negligible, or if the line is at
    the end of the range.  A negligible slope makes a constant interval; the
    flag still tells which sign it has. -/
theorem table_flags_outside (asc : c.Ascending) (hne : x₀ ≠ x₁)
    (hk : 1 ≤ k) :
    ∃ lines : List (TableLine ℝ), c.table x₀ x₁ k = ⟨lines, none⟩
      ∧ ∀ line ∈ lines,
        line.x + |x₁ - x₀| / k ≤ c.xMin ∨ c.xMax ≤ line.x →
        ∃ m, c.trend line.x (line.x + |x₁ - x₀| / k) true = .ok m
          ∧ (line.x + |x₁ - x₀| / k ≤ c.xMin →
            c.eval .first false c.xMin = .ok line.slope)
          ∧ (c.xMax ≤ line.x →
            c.eval .first false c.xMax = .ok line.slope)
          ∧ (c.covers line.x = true ∨ 1e-20 < |line.slope| →
            line.flag = m.code)
          ∧ (|line.slope| ≤ 1e-20 → m = .constant)
          ∧ (¬ c.covers line.x = true →
            (0 < line.slope → line.flag = 1)
              ∧ (line.slope < 0 → line.flag = -1)) := by
  have hpos : 0 < |x₁ - x₀| / k :=
    div_pos (abs_pos.mpr (sub_ne_zero.mpr hne.symm)) (by exact_mod_cast hk)
  refine ⟨_, c.table_of_ne hne hk, fun line hline outside => ?_⟩
  obtain ⟨x, -, rfl⟩ := List.mem_map.mp hline
  have hlt := lt_add_of_pos_right x hpos
  refine ⟨.ofSlope (c.continued .first x) negligible, ?_,
    (asc.eval_nearer_end hlt).1, (asc.eval_nearer_end hlt).2,
    fun decides => ?_,
    ofSlope_of_le, fun hx => ⟨fun rises => ?_, fun falls => ?_⟩⟩
  · show c.trend x (x + |x₁ - x₀| / k) true = _
    rw [trend_of_lt hlt (Or.inl rfl), asc.pieceTrends_outside hlt outside,
      reduce_singleton]
  · exact congrArg code (asc.ahead_outside hpos outside decides)
  · have hahead : c.ahead (|x₁ - x₀| / k) x = .increasing :=
      (if_neg hx).trans (ofSign_of_pos rises)
    exact congrArg code hahead
  · have hahead : c.ahead (|x₁ - x₀| / k) x = .decreasing :=
      (if_neg hx).trans (ofSign_of_nonpos falls.le)
    exact congrArg code hahead

/-- An interval behind a parabola, which falls at its right end. -/
theorem table_flags_outside_arch :
    (arch : Curve ℝ).Ascending ∧ (2 : ℝ) ≠ 3 ∧ (1 : ℤ) ≤ 1
      ∧ ∃ lines, (arch : Curve ℝ).table 2 3 1 = ⟨lines, none⟩
        ∧ ∃ line ∈ lines, (arch : Curve ℝ).xMax ≤ line.x
          ∧ (arch : Curve ℝ).trend line.x (line.x + |3 - 2| / (1 : ℤ)) true
            = .ok .decreasing
          ∧ line.flag = -1 := by
  have hne : (2 : ℝ) ≠ 3 := by norm_num
  have hbehind : (arch : Curve ℝ).xMax ≤ 2 := one_le_two
  obtain ⟨lines, htable, hflags⟩ :=
    table_flags_outside (k := 1) ascending_arch hne (le_refl 1)
  obtain ⟨lines', htable', hline⟩ := (arch : Curve ℝ).line_mem_table (k := 1)
    (show (2 : ℝ) < 3 by norm_num) (le_refl 1)
  obtain rfl : lines = lines' :=
    congrArg Table.lines (htable.symm.trans htable')
  obtain ⟨m, htrend, -, hend, hsteep, -, hsign⟩ :=
    hflags _ hline (Or.inr hbehind)
  have hslope : ((arch : Curve ℝ).line (|3 - 2| / (1 : ℤ)) 2).slope = -1 :=
    Except.ok.inj ((hend hbehind).symm.trans
      (ascending_arch.eval_knot (1 : Fin 2) false).2)
  have hout : ¬ (arch : Curve ℝ).covers 2 = true := fun h =>
    absurd (((arch : Curve ℝ).covers_iff 2).mp h).2 one_lt_two.not_ge
  have hflag := (hsign hout).2 (by rw [hslope]; norm_num)
  have hsame := (hsteep (Or.inr (by rw [hslope]; norm_num))).symm.trans hflag
  have hm : m = .decreasing := by
    cases m with
    | decreasing => rfl
    | _ => exact absurd hsame (by decide)
  exact ⟨ascending_arch, hne, le_refl 1, lines, htable, _, hline, hbehind,
    hm ▸ htrend, hflag⟩

/-- A level line whose ends have the slope `1e-21` goes on with it.  Behind
    the range its flag says that it rises, while the interval there counts as
    constant. -/
theorem flag_differs_on_gentle_tail :
    ∃ (c : Curve ℝ) (lines : List (TableLine ℝ)) (line : TableLine ℝ),
      c = ofEnds 0 1 0 0 1e-21 1e-21 ∧ c.Ascending
        ∧ c.table 2 3 1 = ⟨lines, none⟩ ∧ line ∈ lines
        ∧ c.xMax ≤ line.x
        ∧ c.trend line.x (line.x + |3 - 2| / (1 : ℤ)) true = .ok .constant
        ∧ line.flag = 1 ∧ line.flag ≠ Monotonicity.constant.code := by
  have hends : (0 : ℝ) < 1 := one_pos
  obtain ⟨c, hc⟩ : ∃ c : Curve ℝ, c = ofEnds 0 1 0 0 1e-21 1e-21 := ⟨_, rfl⟩
  have hspanned := hc.trans (ofEnds_of_lt hends 0 0 1e-21 1e-21)
  have asc : c.Ascending := hspanned ▸ ascending_spanned hends
  have hmax : c.xMax = 1 := hspanned ▸ rfl
  have hslope : c.rightSlope = 1e-21 :=
    asc.rightSlope_eq.trans (hspanned ▸ rfl)
  have hlt : (2 : ℝ) < 3 := by norm_num
  have hbehind : c.xMax < 2 := by
    rw [hmax]
    norm_num
  have hfirst := asc.continued_first_behind hbehind.le
  have hout : ¬ c.covers 2 = true :=
    fun h => hbehind.not_ge ((c.covers_iff 2).mp h).2
  obtain ⟨lines, htable, hline⟩ := c.line_mem_table (k := 1) hlt (le_refl 1)
  have hahead : c.ahead (|3 - 2| / (1 : ℤ)) 2 = .increasing := by
    refine (if_neg hout).trans ?_
    rw [hfirst, hslope]
    exact ofSign_of_pos (by norm_num)
  have hflag : (c.line (|3 - 2| / (1 : ℤ)) 2).flag = 1 :=
    congrArg code hahead
  refine ⟨c, lines, _, hc, asc, htable, hline, hbehind.le, ?_, hflag, ?_⟩
  · show c.trend 2 (2 + |3 - 2| / (1 : ℤ)) true = _
    have hstep : (2 : ℝ) < 2 + |3 - 2| / (1 : ℤ) := by norm_num
    rw [trend_of_lt hstep (Or.inl rfl),
      asc.pieceTrends_behind hstep hbehind.le, reduce_singleton, hslope]
    exact congrArg Except.ok (ofSlope_of_le (by norm_num [negligible]))
  · rw [hflag]
    decide

end Curve

end PiecewiseCubic
