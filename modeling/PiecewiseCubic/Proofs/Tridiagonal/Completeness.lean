import PiecewiseCubic.Proofs.Tridiagonal.Soundness

/-! # Which systems are solved

    The elimination refuses the singular systems of three diagonals and no
    others.  The two ways around it are not as exact.  A matrix of order one
    divides without a test, so it never refuses.  A change of rank one divides
    by the first element on the diagonal and leaves three diagonals that may
    be singular where the cyclic matrix is not; where they are not, the last
    number that is divided by vanishes exactly for a singular matrix, and no
    test finds that. -/

namespace PiecewiseCubic.Tridiagonal

open Checked Matrix

variable {n : ℕ}

/-! ## Three diagonals -/

theorem get_ofFn_eq (v : Fin n → ℝ) : (Vector.ofFn v).get = v :=
  funext fun i => Vector.get_ofFn v i

/-- Three diagonals with an answer are not singular: there is no second
    solution. -/
theorem det_bandMatrix_ne_zero {M : Tridiagonal ℝ (n + 1)}
    {d x : Vector ℝ (n + 1)} (h : M.solveBands d = some x) :
    M.bandMatrix.det ≠ 0 := by
  intro hdet
  obtain ⟨v, hv, hkernel⟩ := Matrix.exists_mulVec_eq_zero_iff.mpr hdet
  have hsecond : M.bandMatrix *ᵥ (Vector.ofFn (x.get + v)).get = d.get := by
    rw [get_ofFn_eq, mulVec_add, bandMatrix_mulVec_of_solveBands h, hkernel,
      add_zero]
  have hlists := (solves_iff_of_eliminate (eliminate_of_solveBands h) _).mp
    ((solves_iff_mulVec M d _).mpr hsecond)
  have hsame : x.get + v = x.get := by
    rw [← get_ofFn_eq (x.get + v), Vector.toList_inj.mp hlists]
  exact hv (add_eq_left.mp hsame)

/-- **THE ELIMINATION REFUSES** the singular systems. -/
theorem solveBands_eq_none_iff {M : Tridiagonal ℝ (n + 1)}
    {d : Vector ℝ (n + 1)} :
    M.solveBands d = none ↔ M.bandMatrix.det = 0 := by
  constructor
  · exact det_bandMatrix_of_solveBands_eq_none
  · intro hdet
    cases hx : M.solveBands d with
    | none => rfl
    | some x => exact absurd hdet (det_bandMatrix_ne_zero hx)

/-! ## Corners -/

/-- **THE LAST NUMBER THAT IS DIVIDED BY** vanishes exactly for a singular
    matrix. -/
theorem one_add_cornerProduct_ne_zero_iff {M : Tridiagonal ℝ (n + 3)}
    (hcyclic : M.cyclic = true) {gamma : ℝ} (hgamma : gamma ≠ 0)
    {z : Vector ℝ (n + 3)}
    (hz : (M.withoutCorners gamma).solveBands (M.cornerColumn gamma)
      = some z) :
    1 + M.cornerProduct gamma z ≠ 0 ↔ M.matrix.det ≠ 0 := by
  refine ⟨fun hone hdet => ?_, fun hdet =>
    one_add_cornerProduct_ne_zero hcyclic hdet hgamma hz⟩
  obtain ⟨v, hv, hkernel⟩ := Matrix.exists_mulVec_eq_zero_iff.mpr hdet
  obtain ⟨x, rfl⟩ : ∃ x : Vector ℝ (n + 3), x.get = v :=
    ⟨_, get_ofFn_eq v⟩
  rw [matrix_mulVec_eq_add M hcyclic hgamma x] at hkernel
  -- without corners a kernel vector is a multiple of `z`
  have hsum : x.get + M.cornerProduct gamma x • z.get = 0 := by
    refine Matrix.eq_zero_of_mulVec_eq_zero (det_bandMatrix_ne_zero hz) ?_
    rw [mulVec_add, mulVec_smul, bandMatrix_mulVec_of_solveBands hz]
    exact hkernel
  have hentry (i : Fin (n + 3)) :
      x.get i + M.cornerProduct gamma x * z.get i = 0 := congrFun hsum i
  have hproduct : M.cornerProduct gamma x
      * (1 + M.cornerProduct gamma z) = 0 := by
    have hx : M.cornerProduct gamma x
        = x.get 0 + M.topRight / gamma * x.get (Fin.last _) := rfl
    have hz' : M.cornerProduct gamma z
        = z.get 0 + M.topRight / gamma * z.get (Fin.last _) := rfl
    rw [hz']
    linear_combination
      hentry 0 + M.topRight / gamma * hentry (Fin.last _) + hx
  rw [(mul_eq_zero.mp hproduct).resolve_right hone, zero_smul, add_zero]
    at hsum
  exact hv hsum

/-- A change of rank one with a shift refuses where the three diagonals that
    it leaves are singular. -/
theorem solveCyclic_checked_eq_none_iff {M : Tridiagonal ℝ (n + 3)}
    {d : Vector ℝ (n + 3)} (hshift : M.shift ≠ 0) :
    M.checked.solveCyclic (d.map number) = none
      ↔ (M.withoutCorners M.shift).bandMatrix.det = 0 := by
  rw [solveCyclic]
  simp only [shift_checked, withoutCorners_checked M hshift,
    cornerColumn_checked, solveBands_checked]
  by_cases hdet : (M.withoutCorners M.shift).bandMatrix.det = 0
  · rw [solveBands_eq_none_iff.mpr hdet]
    exact iff_of_true rfl hdet
  · obtain ⟨y, hy⟩ := exists_solveBands hdet d
    obtain ⟨z, hz⟩ := exists_solveBands hdet (M.cornerColumn M.shift)
    rw [hy, hz]
    exact iff_of_false (Option.some_ne_none _) hdet

/-- A change of rank one answers numbers where it has a shift and neither
    matrix is singular, that of the three diagonals and that with the
    corners. -/
theorem exists_solveCyclic_checked_iff {M : Tridiagonal ℝ (n + 3)}
    (hcyclic : M.cyclic = true) (d : Vector ℝ (n + 3)) :
    (∃ x : Vector ℝ (n + 3),
        M.checked.solveCyclic (d.map number) = some (x.map number))
      ↔ M.matrix.det ≠ 0 ∧ M.shift ≠ 0
        ∧ (M.withoutCorners M.shift).bandMatrix.det ≠ 0 := by
  constructor
  · rintro ⟨x, hx⟩
    obtain ⟨hshift, y, z, hy, hz, hone, -⟩ := solveCyclic_checked_iff.mp hx
    exact ⟨(one_add_cornerProduct_ne_zero_iff hcyclic hshift hz).mp hone,
      hshift, det_bandMatrix_ne_zero hy⟩
  · rintro ⟨hdet, hshift, hT⟩
    obtain ⟨y, hy⟩ := exists_solveBands hT d
    obtain ⟨z, hz⟩ := exists_solveBands hT (M.cornerColumn M.shift)
    exact ⟨_, solveCyclic_checked_iff.mpr ⟨hshift, y, z, hy, hz,
      one_add_cornerProduct_ne_zero hcyclic hdet hshift hz, rfl⟩⟩

/-! ## The ways of a solver -/

/-- The matrix has corners beside its diagonals, and they do not both hold
    zero. -/
def Cornered (M : Tridiagonal ℝ n) : Prop :=
  M.cyclic = true ∧ 2 < n ∧ M.hasCorner = true

theorem Cornered.exists_eq_add_two {M : Tridiagonal ℝ (n + 1)}
    (h : M.Cornered) : ∃ k, n = k + 2 :=
  ⟨n - 2, by have := h.2.1; omega⟩

/-- All numbers of the answer are defined. -/
def AnswersNumbers (M : Tridiagonal ℝ n) (d : Vector ℝ n) : Prop :=
  ∃ x : Vector ℝ n, M.checked.solve (d.map number) = some (x.map number)

/-- Nothing is answered. -/
def Refuses (M : Tridiagonal ℝ n) (d : Vector ℝ n) : Prop :=
  M.checked.solve (d.map number) = none

/-- Without corners the three diagonals are solved, and they are the full
    matrix. -/
theorem solve_checked_of_not_cornered {M : Tridiagonal ℝ (n + 2)}
    (h : ¬ M.Cornered) (d : Vector ℝ (n + 2)) :
    M.checked.solve (d.map number)
        = (M.solveBands d).map (Vector.map number)
      ∧ M.matrix = M.bandMatrix := by
  have hplain : M.cyclic = false ∨ n = 0 ∨ M.hasCorner = false := by
    by_contra hall
    obtain ⟨hc, hn, hcorner⟩ := not_or.mp hall |>.imp_right not_or.mp
    exact h ⟨eq_true_of_ne_false hc, by omega, eq_true_of_ne_false hcorner⟩
  constructor
  · rw [solve, hasCorner_checked]
    exact (if_pos hplain).trans (solveBands_checked M d)
  · exact matrix_eq_bandMatrix (hplain.imp_right (Or.imp_left (by omega)))

/-- With corners the change of rank one is taken. -/
theorem solve_checked_of_cornered {M : Tridiagonal ℝ (n + 3)}
    (h : M.Cornered) (d : Vector ℝ (n + 3)) :
    M.checked.solve (d.map number) = M.checked.solveCyclic (d.map number) := by
  obtain ⟨hc, -, hcorner⟩ := h
  rw [solve, hasCorner_checked]
  refine if_neg ?_
  rintro (hc' | hn | hcorner')
  · exact absurd hc (ne_true_of_eq_false hc')
  · exact absurd hn (Nat.succ_ne_zero n)
  · exact absurd hcorner (ne_true_of_eq_false hcorner')

/-- A matrix of order one is never refused, and answers a number unless it
    is singular. -/
theorem solve_complete_one (M : Tridiagonal ℝ 1) (d : Vector ℝ 1) :
    (M.AnswersNumbers d ↔ M.matrix.det ≠ 0) ∧ ¬ M.Refuses d := by
  have hdet : M.matrix.det = (M.columns.get 0).diag := by
    rw [matrix_eq_bandMatrix (Or.inr (Or.inl one_le_two)), det_fin_one]
    exact bandEntry_self M 0
  refine ⟨?_, Option.some_ne_none _⟩
  rw [hdet]
  constructor
  · rintro ⟨x, hx⟩
    exact (solve_one_checked_iff.mp hx).1
  · intro hdiag
    exact ⟨#v[d.get 0 / (M.columns.get 0).diag],
      solve_one_checked_iff.mpr ⟨hdiag, rfl⟩⟩

/-- A matrix without corners is refused if it is singular, unless it is of
    order one, and answers numbers otherwise. -/
theorem solve_complete_of_not_cornered {M : Tridiagonal ℝ (n + 1)}
    (h : ¬ M.Cornered) (d : Vector ℝ (n + 1)) :
    (M.AnswersNumbers d ↔ M.matrix.det ≠ 0)
      ∧ (M.Refuses d ↔ n ≠ 0 ∧ M.matrix.det = 0) := by
  match n, M, d, h with
  | 0, M, d, _ =>
      obtain ⟨hnumbers, hrefuses⟩ := solve_complete_one M d
      exact ⟨hnumbers, iff_of_false hrefuses fun h => h.1 rfl⟩
  | n + 1, M, d, h =>
      obtain ⟨hrun, hmatrix⟩ := solve_checked_of_not_cornered h d
      rw [AnswersNumbers, Refuses, hrun, hmatrix, Option.map_eq_none_iff,
        solveBands_eq_none_iff]
      refine ⟨⟨?_, fun hdet => ?_⟩,
        (and_iff_right (Nat.succ_ne_zero n)).symm⟩
      · rintro ⟨x, hx⟩
        obtain ⟨x', hx', -⟩ := Option.map_eq_some_iff.mp hx
        exact det_bandMatrix_ne_zero hx'
      · obtain ⟨x, hx⟩ := exists_solveBands hdet d
        exact ⟨x, by rw [hx, Option.map_some]⟩

/-- A matrix with corners answers numbers if neither it nor what it leaves of
    the three diagonals is singular and its first element on the diagonal is
    not zero; with that element it is refused if the three diagonals that it
    leaves are singular. -/
theorem solve_complete_of_cornered {M : Tridiagonal ℝ (n + 1)}
    (h : M.Cornered) (d : Vector ℝ (n + 1)) :
    (M.AnswersNumbers d ↔ M.matrix.det ≠ 0 ∧ M.shift ≠ 0
        ∧ (M.withoutCorners M.shift).bandMatrix.det ≠ 0)
      ∧ (M.shift ≠ 0 →
        (M.Refuses d ↔ (M.withoutCorners M.shift).bandMatrix.det = 0)) := by
  obtain ⟨n, rfl⟩ := h.exists_eq_add_two
  rw [AnswersNumbers, Refuses, solve_checked_of_cornered h d]
  exact ⟨exists_solveCyclic_checked_iff h.1 d,
    fun hshift => solveCyclic_checked_eq_none_iff hshift⟩

/-- **WHICH SYSTEMS ARE SOLVED**: numbers are answered if the matrix is not
    singular and, where it has corners, its first element on the diagonal is
    not zero and the three diagonals without corners are not singular
    either.  A matrix without corners is refused if it is singular, unless it
    is of order one; one with corners is refused if what it leaves of the
    three diagonals is singular. -/
theorem solve_complete (M : Tridiagonal ℝ (n + 1)) (d : Vector ℝ (n + 1)) :
    (M.AnswersNumbers d ↔ M.matrix.det ≠ 0
        ∧ (M.Cornered → M.shift ≠ 0
          ∧ (M.withoutCorners M.shift).bandMatrix.det ≠ 0))
      ∧ (¬ M.Cornered → (M.Refuses d ↔ n ≠ 0 ∧ M.matrix.det = 0))
      ∧ (M.Cornered → M.shift ≠ 0 →
        (M.Refuses d ↔ (M.withoutCorners M.shift).bandMatrix.det = 0)) := by
  by_cases hcornered : M.Cornered
  · obtain ⟨hnumbers, hrefuses⟩ := solve_complete_of_cornered hcornered d
    rw [imp_iff_right hcornered, imp_iff_right hcornered]
    exact ⟨hnumbers, fun h => absurd hcornered h, hrefuses⟩
  · obtain ⟨hnumbers, hrefuses⟩ := solve_complete_of_not_cornered hcornered d
    refine ⟨?_, fun _ => hrefuses, fun h => absurd h hcornered⟩
    rw [hnumbers]
    exact (and_iff_left fun h => absurd h hcornered).symm

/-- A cyclic matrix of order three whose last row without corners vanishes. -/
def crossed : Tridiagonal ℝ 3 where
  cyclic := true
  columns := #v[⟨0, 1, 0⟩, ⟨0, 1, 0⟩, ⟨0, -1, 0⟩]
  topRight := 1
  bottomLeft := 1

theorem cornered_crossed : crossed.Cornered := by
  refine ⟨rfl, by decide, eq_true_of_ne_false fun h => ?_⟩
  exact one_ne_zero ((hasCorner_eq_false_iff crossed).mp h).1

theorem matrix_crossed : crossed.matrix = !![1, 0, 1; 0, 1, 0; 1, 0, -1] := by
  ext i j
  rw [matrix_apply]
  fin_cases i <;> fin_cases j <;> first | exact add_zero _ | exact zero_add _

theorem det_withoutCorners_crossed :
    (crossed.withoutCorners crossed.shift).bandMatrix.det = 0 := by
  refine det_eq_zero_of_row_eq_zero (Fin.last 2) fun j => ?_
  fin_cases j
  · rfl
  · rfl
  · show (-1 : ℝ) - 1 * 1 / -1 = 0
    norm_num

/-- A system that has a solution and is refused. -/
theorem solve_complete_crossed :
    crossed.Cornered ∧ crossed.shift ≠ 0 ∧ crossed.matrix.det ≠ 0
      ∧ crossed.Refuses #v[1, 2, 3] := by
  have hshift : crossed.shift ≠ 0 := neg_ne_zero.mpr one_ne_zero
  have hdet : crossed.matrix.det ≠ 0 := by
    have hvalue : crossed.matrix.det = -1 - 1 := by
      rw [matrix_crossed]
      simp [det_fin_three]
    rw [hvalue]
    norm_num
  obtain ⟨-, -, hrefuses⟩ := solve_complete crossed #v[1, 2, 3]
  exact ⟨cornered_crossed, hshift, hdet,
    (hrefuses cornered_crossed hshift).mpr det_withoutCorners_crossed⟩

end PiecewiseCubic.Tridiagonal
