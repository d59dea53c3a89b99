import PiecewiseCubic.Proofs.Tridiagonal.Dense

/-! # Cyclic systems — a change of rank one

    A cyclic matrix is a matrix of three diagonals plus the product of a
    column and a row.  Two solutions for the three diagonals give the one for
    the cyclic matrix, and the number that is divided by on the way vanishes
    only if the cyclic matrix is singular. -/

namespace PiecewiseCubic.Tridiagonal

open Matrix

variable {n : ℕ}

/-- Only the first and the last element on the diagonal are changed. -/
theorem read_withoutCorners (M : Tridiagonal ℝ (n + 3)) (gamma : ℝ)
    (p : Place (n + 3)) :
    (M.withoutCorners gamma).read p
      = M.read p - (if p = .diag 0 then gamma else 0)
        - (if p = .diag (Fin.last _) then
            M.bottomLeft * M.topRight / gamma else 0) := by
  have hne : (Place.diag (Fin.last (n + 2)) : Place (n + 3)) ≠ .diag 0 := by
    rw [Ne, Place.diag.injEq]
    exact Fin.last_pos.ne'
  -- the elements before and after the first of the two changes
  have hfirst (q : Place (n + 3)) :
      (M.write (.diag 0) ((M.columns.get 0).diag - gamma)).read q
        = M.read q - (if q = .diag 0 then gamma else 0) := by
    by_cases hq : q = .diag 0
    · rw [hq, read_write_self, if_pos rfl]
      rfl
    · rw [read_write_of_ne _ _ hq, if_neg hq, sub_zero]
  by_cases hp : p = .diag (Fin.last _)
  · rw [hp, withoutCorners, read_write_self, if_pos rfl, ← hfirst]
    rfl
  · rw [withoutCorners, read_write_of_ne _ _ hp, if_neg hp, sub_zero]
    exact hfirst p

/-- The equations without corners, as far as they differ. -/
theorem equation_withoutCorners (M : Tridiagonal ℝ (n + 3)) (gamma : ℝ)
    (d : Vector ℝ (n + 3)) (i : Fin (n + 3)) :
    (M.withoutCorners gamma).equation d i =
      { M.equation d i with
        diag := (M.equation d i).diag - (if i = 0 then gamma else 0)
          - (if i = Fin.last _ then M.bottomLeft * M.topRight / gamma
            else 0) } := by
  have hbelow (j : Fin (n + 3)) :
      ((M.withoutCorners gamma).columns.get j).below
        = (M.columns.get j).below := by
    have h := read_withoutCorners M gamma (.below j)
    rw [if_neg (fun e => nomatch e), if_neg (fun e => nomatch e), sub_zero,
      sub_zero] at h
    exact h
  have habove (j : Fin (n + 3)) :
      ((M.withoutCorners gamma).columns.get j).above
        = (M.columns.get j).above := by
    have h := read_withoutCorners M gamma (.above j)
    rw [if_neg (fun e => nomatch e), if_neg (fun e => nomatch e), sub_zero,
      sub_zero] at h
    exact h
  have hdiag := read_withoutCorners M gamma (.diag i)
  simp only [Place.diag.injEq] at hdiag
  simp only [equation, hbelow, habove]
  congr 1

/-- **A CHANGE OF RANK ONE** turns the diagonals without corners into the
    cyclic matrix. -/
theorem matrix_mulVec_eq_add (M : Tridiagonal ℝ (n + 3))
    (h : M.cyclic = true) {gamma : ℝ} (hgamma : gamma ≠ 0)
    (x : Vector ℝ (n + 3)) :
    M.matrix *ᵥ x.get = (M.withoutCorners gamma).bandMatrix *ᵥ x.get
      + M.cornerProduct gamma x • (M.cornerColumn gamma).get := by
  funext i
  have hcolumn : (M.cornerColumn gamma).get i
      = if i = Fin.last _ then M.bottomLeft
        else if i = 0 then gamma else 0 := by
    rw [cornerColumn, Vector.get_ofFn]
    rfl
  have hproduct : M.cornerProduct gamma x
      = x.get 0 + M.topRight / gamma * x.get (Fin.last _) := rfl
  rw [Pi.add_apply, Pi.smul_apply, smul_eq_mul, matrix_mulVec M h x x i,
    bandMatrix_mulVec _ x x i, equation_withoutCorners, hcolumn, hproduct]
  have hne : Fin.last (n + 2) ≠ 0 := Fin.last_pos.ne'
  have hmul : M.topRight / gamma * gamma = M.topRight :=
    div_mul_cancel₀ _ hgamma
  by_cases h0 : i = 0
  · subst h0
    have hx : entryOrZero x 0 = x.get 0 := entryOrZero_of_lt x (by omega)
    simp only [if_neg hne.symm, if_true, Fin.val_zero, hx]
    linear_combination -x.get (Fin.last _) * hmul
  · by_cases hl : i = Fin.last _
    · subst hl
      have hx : entryOrZero x (n + 2) = x.get (Fin.last _) :=
        entryOrZero_of_lt x (by omega)
      simp only [if_neg hne, if_true, Fin.val_last, hx]
      ring
    · simp only [if_neg h0, if_neg hl]
      ring

/-- The number that is divided by vanishes only for a singular matrix. -/
theorem one_add_cornerProduct_ne_zero {M : Tridiagonal ℝ (n + 3)}
    (h : M.cyclic = true) (hdet : M.matrix.det ≠ 0) {gamma : ℝ}
    (hgamma : gamma ≠ 0) {z : Vector ℝ (n + 3)}
    (hz : (M.withoutCorners gamma).solveBands (M.cornerColumn gamma)
      = some z) : 1 + M.cornerProduct gamma z ≠ 0 := by
  intro hone
  have hband := bandMatrix_mulVec_of_solveBands hz
  have hkernel : M.matrix *ᵥ z.get = 0 := by
    rw [matrix_mulVec_eq_add M h hgamma z, hband,
      show M.cornerProduct gamma z = -1 by linear_combination hone,
      neg_one_smul, add_neg_cancel]
  refine hdet (Matrix.exists_mulVec_eq_zero_iff.mp ⟨z.get, ?_, hkernel⟩)
  intro hz0
  rw [hz0, Matrix.mulVec_zero] at hband
  -- the column does not vanish: its first entry is `gamma`
  have hfirst : (M.cornerColumn gamma).get 0 = gamma := by
    rw [cornerColumn, Vector.get_ofFn]
    rfl
  rw [← hband] at hfirst
  exact hgamma hfirst.symm

/-- The combination of two solutions for the three diagonals. -/
noncomputable def combined (M : Tridiagonal ℝ (n + 3)) (gamma : ℝ)
    (y z : Vector ℝ (n + 3)) : Vector ℝ (n + 3) :=
  Vector.ofFn fun i =>
    y.get i - M.cornerProduct gamma y / (1 + M.cornerProduct gamma z) * z.get i

/-- Both systems of three diagonals have to be solved. -/
theorem solveCyclic_eq_some_iff {M : Tridiagonal ℝ (n + 3)}
    {d x : Vector ℝ (n + 3)} :
    M.solveCyclic d = some x ↔ ∃ y z,
      (M.withoutCorners M.shift).solveBands d = some y
        ∧ (M.withoutCorners M.shift).solveBands (M.cornerColumn M.shift)
          = some z
        ∧ M.combined M.shift y z = x := by
  rw [solveCyclic]
  simp only [Option.bind_eq_bind, Option.bind_eq_some_iff, Option.pure_def,
    Option.some.injEq]
  constructor
  · rintro ⟨y, hy, z, hz, hx⟩
    exact ⟨y, z, hy, hz, hx⟩
  · rintro ⟨y, z, hy, hz, hx⟩
    exact ⟨y, hy, z, hz, hx⟩

/-- **CYCLIC SYSTEMS ARE SOLVED** by the combination, unless a number that is
    divided by vanishes. -/
theorem matrix_mulVec_combined {M : Tridiagonal ℝ (n + 3)}
    (h : M.cyclic = true) {gamma : ℝ} (hgamma : gamma ≠ 0)
    {d y z : Vector ℝ (n + 3)}
    (hy : (M.withoutCorners gamma).solveBands d = some y)
    (hz : (M.withoutCorners gamma).solveBands (M.cornerColumn gamma)
      = some z) (hone : 1 + M.cornerProduct gamma z ≠ 0) :
    M.matrix *ᵥ (M.combined gamma y z).get = d.get := by
  have hx : (M.combined gamma y z).get = y.get
      - (M.cornerProduct gamma y / (1 + M.cornerProduct gamma z)) • z.get := by
    funext i
    rw [combined, Vector.get_ofFn]
    rfl
  have hMy : M.matrix *ᵥ y.get = d.get
      + M.cornerProduct gamma y • (M.cornerColumn gamma).get := by
    rw [matrix_mulVec_eq_add M h hgamma y, bandMatrix_mulVec_of_solveBands hy]
  have hMz : M.matrix *ᵥ z.get
      = (1 + M.cornerProduct gamma z) • (M.cornerColumn gamma).get := by
    rw [matrix_mulVec_eq_add M h hgamma z, bandMatrix_mulVec_of_solveBands hz,
      add_smul, one_smul]
  rw [hx, Matrix.mulVec_sub, Matrix.mulVec_smul, hMy, hMz, smul_smul,
    div_mul_cancel₀ _ hone, add_sub_cancel_right]

end PiecewiseCubic.Tridiagonal
