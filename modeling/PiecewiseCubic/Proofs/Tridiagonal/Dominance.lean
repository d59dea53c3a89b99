import PiecewiseCubic.Proofs.Tridiagonal.Cyclic

/-! # Dominant diagonals

    A matrix whose diagonal dominates every row is not singular.  The
    diagonals without corners of a dominated cyclic matrix are dominated as
    well, so a dominated system is solved, whichever way is taken. -/

namespace PiecewiseCubic.Tridiagonal

open Matrix

variable {n : ℕ}

/-- The diagonal of a matrix exceeds the rest of each row in magnitude. -/
def RowDominant (A : Matrix (Fin n) (Fin n) ℝ) : Prop :=
  ∀ i, ∑ j ∈ Finset.univ.erase i, |A i j| < |A i i|

theorem RowDominant.det_ne_zero {A : Matrix (Fin n) (Fin n) ℝ}
    (h : RowDominant A) : A.det ≠ 0 :=
  det_ne_zero_of_sum_row_lt_diag h

/-! ## Sums of rows -/

/-- The neighbours of the diagonal are the rest of a row. -/
theorem sum_abs_bandEntry (M : Tridiagonal ℝ n) (d : Vector ℝ n)
    (i : Fin n) :
    ∑ j ∈ Finset.univ.erase i, |M.bandEntry i j|
      = |(M.equation d i).left| + |(M.equation d i).right| := by
  rw [Finset.sum_erase_eq_sub (Finset.mem_univ i), sum_neighbours i]
  · rw [add_right_comm, add_sub_cancel_right]
    congr 1
    · show _ = |if 0 < i.val then _ else (0 : ℝ)|
      by_cases h : 0 < i.val
      · rw [if_pos h, if_pos h, bandEntry_left M (val_placeBefore_add_one h)]
      · rw [if_neg h, if_neg h, abs_zero]
    · show _ = |dite (i.val + 1 < n) _ (fun _ => (0 : ℝ))|
      by_cases h : i.val + 1 < n
      · rw [dif_pos h, dif_pos h, bandEntry_right M (by rfl)]
      · rw [dif_neg h, dif_neg h, abs_zero]
  · intro j hi hr hl
    rw [bandEntry_far M hi hr hl, abs_zero]

/-- The corners lie beside the diagonals. -/
theorem bandEntry_eq_zero_or (M : Tridiagonal ℝ n) (i j : Fin n) :
    M.bandEntry i j = 0 ∨ M.cornerEntry i j = 0 := by
  by_cases hfar : j ≠ i ∧ i.val + 1 ≠ j.val ∧ j.val + 1 ≠ i.val
  · exact Or.inl (bandEntry_far M hfar.1 hfar.2.1 hfar.2.2)
  · refine Or.inr ?_
    rw [cornerEntry, if_neg, if_neg]
    · rintro ⟨-, hn, hi, hj⟩
      exact hfar ⟨by rintro rfl; omega, by omega, by omega⟩
    · rintro ⟨-, hn, hi, hj⟩
      exact hfar ⟨by rintro rfl; omega, by omega, by omega⟩

/-- The rest of a row of a cyclic matrix has its corner as well. -/
theorem sum_abs_matrix (M : Tridiagonal ℝ (n + 3)) (h : M.cyclic = true)
    (d : Vector ℝ (n + 3)) (i : Fin (n + 3)) :
    ∑ j ∈ Finset.univ.erase i, |M.matrix i j|
      = |(M.equation d i).left| + |(M.equation d i).right|
        + ((if i = 0 then |M.topRight| else 0)
          + (if i = Fin.last _ then |M.bottomLeft| else 0)) := by
  have hentry (j : Fin (n + 3)) :
      |M.matrix i j| = |M.bandEntry i j| + |M.cornerEntry i j| := by
    rw [matrix_apply]
    rcases M.bandEntry_eq_zero_or i j with hb | hc
    · rw [hb, zero_add, abs_zero, zero_add]
    · rw [hc, add_zero, abs_zero, add_zero]
  have hself : M.cornerEntry i i = 0 := by
    rw [cornerEntry, if_neg (by omega), if_neg (by omega)]
  have hcorner := sum_cornerEntry M h i (fun _ e => |e|) (fun _ => abs_zero)
  rw [Finset.sum_congr rfl fun j _ => hentry j, Finset.sum_add_distrib,
    sum_abs_bandEntry M d i, Finset.sum_erase_eq_sub (Finset.mem_univ i),
    hself, abs_zero, sub_zero, hcorner]

/-- The diagonal is that of the equations. -/
theorem matrix_diag (M : Tridiagonal ℝ n) (d : Vector ℝ n) (i : Fin n) :
    M.matrix i i = (M.equation d i).diag := by
  rw [matrix_apply, bandEntry_self, cornerEntry, if_neg (by omega),
    if_neg (by omega), add_zero]
  rfl

/-- The product of the corners over the first diagonal element is at most the
    second corner if the first row is dominated. -/
theorem abs_corners_div_le {top bottom diag : ℝ} (h : |top| < |diag|) :
    |bottom * top / -diag| ≤ |bottom| := by
  have hpos : 0 < |diag| := lt_of_le_of_lt (abs_nonneg _) h
  rw [abs_div, abs_mul, abs_neg, div_le_iff₀ hpos]
  exact mul_le_mul_of_nonneg_left h.le (abs_nonneg _)

/-- A dominating element does not vanish. -/
theorem RowDominant.diag_ne_zero {M : Tridiagonal ℝ n}
    (h : RowDominant M.matrix) (i : Fin n) : (M.columns.get i).diag ≠ 0 := by
  have hi := h i
  rw [matrix_diag M (Vector.replicate _ 0)] at hi
  exact abs_pos.mp
    (lt_of_le_of_lt (Finset.sum_nonneg fun _ _ => abs_nonneg _) hi)

/-- **DOMINANCE WITHOUT CORNERS**: what the change of rank one leaves of a
    dominated cyclic matrix is dominated. -/
theorem rowDominant_withoutCorners {M : Tridiagonal ℝ (n + 3)}
    (h : M.cyclic = true) (hdom : RowDominant M.matrix) :
    RowDominant (M.withoutCorners M.shift).bandMatrix := by
  intro i
  let d : Vector ℝ (n + 3) := Vector.replicate _ 0
  have hrow (j : Fin (n + 3)) := hdom j
  simp only [sum_abs_matrix M h d, matrix_diag M d] at hrow
  have hdiag : (M.withoutCorners M.shift).bandEntry i i
      = ((M.withoutCorners M.shift).equation d i).diag :=
    bandEntry_self _ i
  show ∑ j ∈ _, |(M.withoutCorners _).bandEntry i j|
    < |(M.withoutCorners _).bandEntry i i|
  rw [sum_abs_bandEntry _ d, hdiag, equation_withoutCorners]
  have hne : Fin.last (n + 2) ≠ 0 := Fin.last_pos.ne'
  have hzero := hrow 0
  rw [if_pos rfl, if_neg hne.symm, add_zero] at hzero
  have hleft := abs_nonneg (M.equation d 0).left
  have hright := abs_nonneg (M.equation d 0).right
  -- the first element is doubled, the last one pays for the lost corner
  by_cases h0 : i = 0
  · subst h0
    rw [if_pos rfl, if_neg hne.symm, sub_zero, shift, sub_neg_eq_add]
    show _ < |(M.equation d 0).diag + (M.equation d 0).diag|
    have htop := abs_nonneg M.topRight
    rw [← two_mul, abs_mul, abs_two]
    linarith
  · by_cases hl : i = Fin.last _
    · subst hl
      rw [if_neg hne, if_pos rfl, sub_zero]
      have hlast := hrow (Fin.last _)
      rw [if_neg hne, if_pos rfl, zero_add] at hlast
      have hcorners : |M.bottomLeft * M.topRight / M.shift|
          ≤ |M.bottomLeft| := by
        refine abs_corners_div_le ?_
        show |M.topRight| < |(M.equation d 0).diag|
        linarith
      have htriangle := abs_sub_abs_le_abs_sub
        (M.equation d (Fin.last _)).diag
        (M.bottomLeft * M.topRight / M.shift)
      linarith
    · have hi := hrow i
      rw [if_neg h0, if_neg hl, add_zero, add_zero] at hi
      rw [if_neg h0, if_neg hl, sub_zero, sub_zero]
      exact hi

/-! ## Solving a dominated system -/

/-- Three diagonals that are not singular are solved. -/
theorem exists_solveBands {M : Tridiagonal ℝ (n + 1)}
    (h : M.bandMatrix.det ≠ 0) (d : Vector ℝ (n + 1)) :
    ∃ x, M.solveBands d = some x := by
  cases hx : M.solveBands d with
  | none => exact absurd (det_bandMatrix_of_solveBands_eq_none hx) h
  | some x => exact ⟨x, rfl⟩

/-- Three diagonals that are dominated are solved. -/
theorem exists_solveBands_of_rowDominant {M : Tridiagonal ℝ (n + 1)}
    (h : RowDominant M.bandMatrix) (d : Vector ℝ (n + 1)) :
    ∃ x, M.solveBands d = some x ∧ M.bandMatrix *ᵥ x.get = d.get := by
  obtain ⟨x, hx⟩ := exists_solveBands h.det_ne_zero d
  exact ⟨x, hx, bandMatrix_mulVec_of_solveBands hx⟩

/-- What a dominated cyclic system is solved with. -/
theorem exists_parts_of_rowDominant {M : Tridiagonal ℝ (n + 3)}
    (hcyclic : M.cyclic = true) (h : RowDominant M.matrix)
    (d : Vector ℝ (n + 3)) :
    M.shift ≠ 0 ∧ ∃ y z,
      (M.withoutCorners M.shift).solveBands d = some y
        ∧ (M.withoutCorners M.shift).solveBands (M.cornerColumn M.shift)
          = some z
        ∧ 1 + M.cornerProduct M.shift z ≠ 0 := by
  have hT := (rowDominant_withoutCorners hcyclic h).det_ne_zero
  obtain ⟨y, hy⟩ := exists_solveBands hT d
  obtain ⟨z, hz⟩ := exists_solveBands hT (M.cornerColumn M.shift)
  have hshift : M.shift ≠ 0 := neg_ne_zero.mpr (h.diag_ne_zero 0)
  exact ⟨hshift, y, z, hy, hz,
    one_add_cornerProduct_ne_zero hcyclic h.det_ne_zero hshift hz⟩

/-- A dominated cyclic system is solved by the change of rank one. -/
theorem exists_solveCyclic_of_rowDominant {M : Tridiagonal ℝ (n + 3)}
    (hcyclic : M.cyclic = true) (h : RowDominant M.matrix)
    (d : Vector ℝ (n + 3)) :
    ∃ x, M.solveCyclic d = some x ∧ M.matrix *ᵥ x.get = d.get := by
  obtain ⟨hshift, y, z, hy, hz, hone⟩ :=
    exists_parts_of_rowDominant hcyclic h d
  refine ⟨M.combined M.shift y z, ?_,
    matrix_mulVec_combined hcyclic hshift hy hz hone⟩
  exact solveCyclic_eq_some_iff.mpr ⟨y, z, hy, hz, rfl⟩

/-- **A DOMINATED SYSTEM IS SOLVED.** -/
theorem exists_solve_of_rowDominant {M : Tridiagonal ℝ n}
    (h : RowDominant M.matrix) (d : Vector ℝ n) :
    ∃ x, M.solve d = some x ∧ M.matrix *ᵥ x.get = d.get := by
  match n, M, d, h with
  | 0, M, d, _ => exact ⟨d, rfl, funext fun i => i.elim0⟩
  | 1, M, d, h =>
      refine ⟨#v[d[0] / M.columns[0].diag], rfl, ?_⟩
      funext i
      obtain rfl : i = 0 := Subsingleton.elim i 0
      rw [matrix_one_mulVec]
      exact mul_div_cancel₀ (d.get 0) (h.diag_ne_zero 0)
  | n + 2, M, d, h =>
      by_cases hplain : M.cyclic = false ∨ n = 0 ∨ M.hasCorner = false
      · have hmatrix : M.matrix = M.bandMatrix := by
          refine matrix_eq_bandMatrix (hplain.imp_right (Or.imp_left ?_))
          rintro rfl
          exact le_refl 2
        rw [hmatrix] at h ⊢
        obtain ⟨x, hx, hMx⟩ := exists_solveBands_of_rowDominant h d
        exact ⟨x, (if_pos hplain).trans hx, hMx⟩
      · -- only a cyclic matrix of order three or more is left
        obtain ⟨hc, hn, -⟩ := not_or.mp hplain |>.imp_right not_or.mp
        obtain ⟨k, rfl⟩ := Nat.exists_eq_succ_of_ne_zero hn
        obtain ⟨x, hx, hMx⟩ :=
          exists_solveCyclic_of_rowDominant (eq_true_of_ne_false hc) h d
        exact ⟨x, (if_neg hplain).trans hx, hMx⟩

end PiecewiseCubic.Tridiagonal
