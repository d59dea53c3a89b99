import PiecewiseCubic.Proofs.Curve.Knots
import PiecewiseCubic.Proofs.Curve.Verdict
import PiecewiseCubic.Curve.Table

/-! # Tables are complete

    A line asks for the curve inside its range and for the continuations
    outside, so it is refused only if the interval behind it is empty.  The
    intervals of a table divide its range evenly: where the range is not
    empty, neither is any of them, and all lines are written, from the lower
    end of the range to the upper one. -/

namespace PiecewiseCubic.Curve

variable {c : Curve ℝ} {step x x₀ x₁ : ℝ} {k : ℤ}

/-! ## One line -/

/-- How the curve runs behind a position: over the interval there or, outside
    of the range, along the straight continuation. -/
noncomputable def ahead (c : Curve ℝ) (step x : ℝ) : Monotonicity :=
  if c.covers x then .reduce .constant (c.pieceTrends x (x + step))
  else .ofSign (c.continued .first x)

/-- The line at a position. -/
noncomputable def line (c : Curve ℝ) (step x : ℝ) : TableLine ℝ :=
  ⟨x, c.continued .value x, c.continued .first x, (c.ahead step x).code⟩

/-- **A LINE** is there if the interval behind it is not empty. -/
theorem lineAt_of_pos (hstep : 0 < step) (x : ℝ) :
    c.lineAt step x = .ok (c.line step x) := by
  rw [lineAt, line, ahead]
  by_cases hx : c.covers x = true
  · obtain ⟨hmin, hmax⟩ := (c.covers_iff x).mp hx
    rw [if_pos hx, if_pos hx, eval_eq_inside hmin hmax,
      eval_eq_inside hmin hmax,
      trend_of_lt (lt_add_of_pos_right x hstep) (Or.inl rfl),
      continued_eq_inside hmin hmax, continued_eq_inside hmin hmax]
    rfl
  · rw [if_neg hx, if_neg hx, eval_true, eval_true]
    rfl

/-- In the range a line with an empty interval is refused. -/
theorem lineAt_zero (hx : c.covers x = true) :
    c.lineAt 0 x = .error .emptyInterval := by
  obtain ⟨hmin, hmax⟩ := (c.covers_iff x).mp hx
  have hempty : c.trend x (x + 0) true = .error .emptyInterval := by
    rw [add_zero]
    exact if_pos (beq_self_eq_true x)
  rw [lineAt, if_pos hx, eval_eq_inside hmin hmax, eval_eq_inside hmin hmax,
    hempty]
  rfl

/-! ## All lines -/

/-- **ALL LINES** are written if no interval is empty. -/
theorem linesAt_of_pos (hstep : 0 < step) (xs : List ℝ) :
    c.linesAt step xs = ⟨xs.map (c.line step), none⟩ := by
  induction xs with
  | nil => rfl
  | cons x xs ih =>
      rw [linesAt, lineAt_of_pos hstep x]
      show (⟨c.line step x :: (c.linesAt step xs).lines,
        (c.linesAt step xs).fault⟩ : Table ℝ) = _
      rw [ih]
      rfl

theorem stepOf_eq (hk : 1 ≤ k) (x₀ x₁ : ℝ) :
    stepOf x₀ x₁ k = .ok ((x₁ - x₀) / k) := by
  have hsize : Exact.ofNat k.natAbs = (k : ℝ) := by
    rw [Exact.ofNat_eq, ← Int.cast_natCast, Int.natAbs_of_nonneg (by omega)]
  have hstep : stepOf x₀ x₁ k
      = .ok ((x₁ - x₀) / if k < 0 then -Exact.ofNat k.natAbs
        else Exact.ofNat k.natAbs) := by
    have hfinite : ¬ (true = false) := by decide
    rw [stepOf, if_neg (by omega)]
    exact if_neg hfinite
  rw [hstep, if_neg (by omega), hsize]

/-- The positions that divide the range between two others evenly, both ends
    included. -/
noncomputable def places (x₀ x₁ : ℝ) (k : ℤ) : List ℝ :=
  (List.range (k + 1).toNat).map fun i : ℕ =>
    min x₀ x₁ + i * (|x₁ - x₀| / k)

theorem places_swap (x₀ x₁ : ℝ) (k : ℤ) : places x₁ x₀ k = places x₀ x₁ k := by
  rw [places, places, min_comm, abs_sub_comm]

/-- There is one position more than there are intervals. -/
theorem length_places (hk : 1 ≤ k) (x₀ x₁ : ℝ) :
    ((places x₀ x₁ k).length : ℤ) = k + 1 := by
  rw [places, List.length_map, List.length_range]
  omega

theorem getElem?_places {i : ℕ} (h : (places x₀ x₁ k)[i]? = some x) :
    i < (k + 1).toNat ∧ x = min x₀ x₁ + i * (|x₁ - x₀| / k) := by
  rw [places, List.getElem?_map, Option.map_eq_some_iff] at h
  obtain ⟨j, hj, hx⟩ := h
  obtain ⟨hlt, rfl⟩ := List.getElem?_eq_some_iff.mp hj
  rw [List.length_range] at hlt
  rw [List.getElem_range] at hx
  exact ⟨hlt, hx.symm⟩

/-- The positions lie between both ends. -/
theorem mem_places (hk : 1 ≤ k) (h : x ∈ places x₀ x₁ k) :
    min x₀ x₁ ≤ x ∧ x ≤ max x₀ x₁ := by
  obtain ⟨i, hi, rfl⟩ := List.mem_map.mp h
  have hpos : (0 : ℝ) < k := by exact_mod_cast hk
  have hle : (i : ℝ) ≤ k := by
    have hlt := List.mem_range.mp hi
    exact_mod_cast show (i : ℤ) ≤ k by omega
  have hstep : 0 ≤ |x₁ - x₀| / k := div_nonneg (abs_nonneg _) hpos.le
  refine ⟨le_add_of_nonneg_right (mul_nonneg (Nat.cast_nonneg i) hstep), ?_⟩
  calc min x₀ x₁ + i * (|x₁ - x₀| / k)
      ≤ min x₀ x₁ + k * (|x₁ - x₀| / k) := by gcongr
    _ = min x₀ x₁ + (max x₀ x₁ - min x₀ x₁) := by
        rw [mul_div_cancel₀ _ hpos.ne', max_sub_min_eq_abs]
    _ = max x₀ x₁ := add_sub_cancel _ _

/-- The last position is the upper end. -/
theorem getLast?_places (hk : 1 ≤ k) (x₀ x₁ : ℝ) :
    (places x₀ x₁ k).getLast? = some (max x₀ x₁) := by
  obtain ⟨n, rfl⟩ := Int.eq_ofNat_of_zero_le (show 0 ≤ k by omega)
  have hlast : min x₀ x₁ + (n : ℕ) * (|x₁ - x₀| / ((n : ℤ) : ℝ))
      = max x₀ x₁ := by
    have hn : ((n : ℕ) : ℝ) ≠ 0 := by
      have hpos : 0 < n := by exact_mod_cast hk
      exact_mod_cast hpos.ne'
    rw [Int.cast_natCast, mul_div_cancel₀ _ hn, ← max_sub_min_eq_abs,
      add_sub_cancel]
  have hsize : ((n : ℤ) + 1).toNat = n + 1 := by omega
  rw [places, hsize, List.range_succ, List.map_append, List.map_singleton,
    List.getLast?_concat]
  exact congrArg some hlast

theorem gridOf_eq (x₀ x₁ : ℝ) (k : ℤ) :
    gridOf (min x₀ x₁) (|x₁ - x₀| / k) k = places x₀ x₁ k := by
  refine List.map_congr_left fun i _ => ?_
  show min x₀ x₁ + Exact.ofNat i * _ = _
  rw [Exact.ofNat_eq]

/-- A table has the lines at the positions that divide its range. -/
theorem table_eq (c : Curve ℝ) (hk : 1 ≤ k) (x₀ x₁ : ℝ) :
    c.table x₀ x₁ k = c.linesAt (|x₁ - x₀| / k) (places x₀ x₁ k) := by
  rw [table, Exact.min_eq, Exact.max_eq, stepOf_eq hk, max_sub_min_eq_abs,
    ← gridOf_eq]

/-- **A TABLE IS COMPLETE** if its range is not empty. -/
theorem table_of_ne (c : Curve ℝ) (hne : x₀ ≠ x₁) (hk : 1 ≤ k) :
    c.table x₀ x₁ k
      = ⟨(places x₀ x₁ k).map (c.line (|x₁ - x₀| / k)), none⟩ := by
  have hpos : 0 < |x₁ - x₀| / k :=
    div_pos (abs_pos.mpr (sub_ne_zero.mpr hne.symm)) (by exact_mod_cast hk)
  rw [c.table_eq hk, linesAt_of_pos hpos]

/-- In the range a table of one position is refused. -/
theorem table_self (hx : c.covers x = true) (hk : 1 ≤ k) :
    c.table x x k = ⟨[], some .emptyInterval⟩ := by
  obtain ⟨n, hn⟩ : ∃ n, (k + 1).toNat = n + 1 := ⟨k.toNat, by omega⟩
  have hhead : places x x k
      = x :: (List.range n).map fun i : ℕ =>
        min x x + ((i + 1 : ℕ) : ℝ) * (|x - x| / k) := by
    rw [places, hn, List.range_succ_eq_map, List.map_cons, List.map_map,
      Nat.cast_zero, zero_mul, add_zero, min_self]
    rfl
  rw [c.table_eq hk, hhead, sub_self, abs_zero, zero_div, linesAt,
    lineAt_zero hx]

/-! ## What the lines say -/

/-- The column of a derivative is what the curve answers to all positions at
    once. -/
theorem Ascending.sample_places (asc : c.Ascending) (order : Order)
    (xs : List ℝ) :
    c.sample order true (.ofList xs)
      = .ok (.ofList (xs.map (c.continued order))) := by
  rw [asc.sample_eq_map order (Or.inl rfl)]
  exact congrArg Except.ok (Tensor.withEntries_ofList_map _ _)

/-- The flag of a line. -/
theorem Ascending.flag_line (asc : c.Ascending) (hstep : 0 < step) (x : ℝ) :
    (c.covers x = true → ∃ m, c.trend x (x + step) true = .ok m
        ∧ (c.line step x).flag = m.code)
      ∧ (x < c.xMin → (c.line step x).flag = if 0 < c.leftSlope then 1 else -1)
      ∧ (c.xMax < x →
        (c.line step x).flag = if 0 < c.rightSlope then 1 else -1) := by
  refine ⟨fun hx => ?_, fun hx => ?_, fun hx => ?_⟩
  · refine ⟨_, trend_of_lt (lt_add_of_pos_right x hstep) (Or.inl rfl), ?_⟩
    exact congrArg Monotonicity.code (if_pos hx)
  · have hout : ¬ c.covers x = true := fun h =>
      hx.not_ge ((c.covers_iff x).mp h).1
    rw [← Monotonicity.code_ofSign]
    refine congrArg Monotonicity.code ((if_neg hout).trans ?_)
    rw [asc.sorted.continued_of_lt_xMin hx]
    rfl
  · have hout : ¬ c.covers x = true := fun h =>
      hx.not_ge ((c.covers_iff x).mp h).2
    rw [← Monotonicity.code_ofSign]
    refine congrArg Monotonicity.code ((if_neg hout).trans ?_)
    rw [asc.sorted.continued_of_xMax_lt hx]
    rfl

/-- **TABLES ARE COMPLETE**: between two positions that differ, in any order,
    there is one line more than there are intervals, at evenly spaced
    positions from the lower one to the upper one.  The lines have the value
    and the slope that the curve answers to all positions at once, and a flag
    that tells the monotonicity up to the next position or, outside of the
    range, the sign of the slope at the nearer end. -/
theorem table_complete (asc : c.Ascending) (hne : x₀ ≠ x₁) (hk : 1 ≤ k) :
    ∃ (lines : List (TableLine ℝ)) (left right : ℝ),
      c.table x₀ x₁ k = ⟨lines, none⟩ ∧ c.table x₁ x₀ k = ⟨lines, none⟩
        ∧ (lines.length : ℤ) = k + 1
        ∧ (∀ (i : ℕ) line, lines[i]? = some line →
          line.x = min x₀ x₁ + i * (|x₁ - x₀| / k))
        ∧ lines.getLast?.map TableLine.x = some (max x₀ x₁)
        ∧ c.sample .value true (.ofList (lines.map TableLine.x))
          = .ok (.ofList (lines.map TableLine.value))
        ∧ c.sample .first true (.ofList (lines.map TableLine.x))
          = .ok (.ofList (lines.map TableLine.slope))
        ∧ c.eval .first false c.xMin = .ok left
        ∧ c.eval .first false c.xMax = .ok right
        ∧ ∀ line ∈ lines,
          (c.covers line.x = true →
            ∃ m, c.trend line.x (line.x + |x₁ - x₀| / k) true = .ok m
              ∧ line.flag = m.code)
          ∧ (line.x < c.xMin → line.flag = if 0 < left then 1 else -1)
          ∧ (c.xMax < line.x →
            line.flag = if 0 < right then 1 else -1) := by
  have hpos : 0 < |x₁ - x₀| / k :=
    div_pos (abs_pos.mpr (sub_ne_zero.mpr hne.symm)) (by exact_mod_cast hk)
  have hback : c.table x₁ x₀ k
      = ⟨(places x₀ x₁ k).map (c.line (|x₁ - x₀| / k)), none⟩ := by
    rw [c.table_of_ne hne.symm hk, places_swap, abs_sub_comm]
  refine ⟨_, c.leftSlope, c.rightSlope, c.table_of_ne hne hk, hback, ?_, ?_,
    ?_, ?_, ?_, ?_, ?_, ?_⟩
  · rw [List.length_map]
    exact length_places hk x₀ x₁
  · intro i line hline
    rw [List.getElem?_map, Option.map_eq_some_iff] at hline
    obtain ⟨x, hx, rfl⟩ := hline
    exact (getElem?_places hx).2
  · rw [List.getLast?_map, getLast?_places hk]
    rfl
  · simp only [asc.sample_places, List.map_map]
    rfl
  · simp only [asc.sample_places, List.map_map]
    rfl
  · exact asc.eval_xMin .first false
  · exact asc.eval_xMax .first false
  · intro line hline
    obtain ⟨x, -, rfl⟩ := List.mem_map.mp hline
    exact asc.flag_line hpos x

/-- Four intervals around a parabola: the table begins in front of its range,
    and one of the intervals at the end of it. -/
theorem table_complete_arch :
    (arch : Curve ℝ).Ascending ∧ (-1 : ℝ) ≠ 3 ∧ (1 : ℤ) ≤ 4
      ∧ ∃ lines, (arch : Curve ℝ).table (-1) 3 4 = ⟨lines, none⟩
        ∧ (lines.length : ℤ) = 4 + 1
        ∧ lines.getLast?.map TableLine.x = some (max (-1) 3) := by
  have hne : (-1 : ℝ) ≠ 3 := by norm_num
  obtain ⟨lines, -, -, htable, -, hlength, -, hlast, -⟩ :=
    table_complete (k := 4) ascending_arch hne (by decide)
  exact ⟨ascending_arch, hne, by decide, lines, htable, hlength, hlast⟩

end PiecewiseCubic.Curve
