import PiecewiseCubic.Proofs.Tridiagonal.Bands
import PiecewiseCubic.Tridiagonal.Solve

/-! # Tridiagonal matrices in full

    The full matrix is that of the three diagonals with the corners on top,
    which lie beside the diagonals from order three on.  A product with it
    and the sum of a row have one term for each stored element. -/

namespace PiecewiseCubic.Tridiagonal

open Matrix

variable {n : ℕ}

/-- The full matrix. -/
noncomputable def matrix (M : Tridiagonal ℝ n) : Matrix (Fin n) (Fin n) ℝ :=
  Matrix.of fun i j => (M.toDense.get i).get j

/-- The part of element `(i, j)` that the corners hold. -/
noncomputable def cornerEntry (M : Tridiagonal ℝ n) (i j : Fin n) : ℝ :=
  if M.cyclic = true ∧ 2 < n ∧ i.val = 0 ∧ j.val + 1 = n then M.topRight
  else if M.cyclic = true ∧ 2 < n ∧ i.val + 1 = n ∧ j.val = 0 then
    M.bottomLeft
  else 0

theorem matrix_apply (M : Tridiagonal ℝ n) (i j : Fin n) :
    M.matrix i j = M.bandEntry i j + M.cornerEntry i j := by
  show (M.toDense.get i).get j = _
  simp only [toDense, cornerEntry, Vector.get_ofFn]
  split_ifs <;> first | rfl | rw [add_zero]

/-- There is no corner if both hold zero. -/
theorem hasCorner_eq_false_iff (M : Tridiagonal ℝ n) :
    M.hasCorner = false ↔ M.topRight = 0 ∧ M.bottomLeft = 0 := by
  simp only [hasCorner, Bool.or_eq_false_iff, Bool.not_eq_false', beq_iff_eq]
  exact Iff.rfl

/-- Without corners that count the matrix is that of its diagonals. -/
theorem matrix_eq_bandMatrix {M : Tridiagonal ℝ n}
    (h : M.cyclic = false ∨ n ≤ 2 ∨ M.hasCorner = false) :
    M.matrix = M.bandMatrix := by
  have hcorner (i j : Fin n) : M.cornerEntry i j = 0 := by
    rcases h with hc | hn | hz
    · simp [cornerEntry, hc]
    · simp [cornerEntry, Nat.not_lt.mpr hn]
    · obtain ⟨htop, hbottom⟩ := M.hasCorner_eq_false_iff.mp hz
      simp [cornerEntry, htop, hbottom]
  funext i j
  rw [matrix_apply, hcorner, add_zero]
  rfl

/-- The product with a matrix of order one. -/
theorem matrix_one_mulVec (M : Tridiagonal ℝ 1) (x : Vector ℝ 1) (i : Fin 1) :
    (M.matrix *ᵥ x.get) i = (M.columns.get 0).diag * x.get 0 := by
  obtain rfl : i = 0 := Subsingleton.elim i 0
  rw [matrix_eq_bandMatrix (Or.inr (Or.inl one_le_two)), mulVec_apply_eq_sum,
    Fin.sum_univ_one]
  exact congrArg (· * x.get 0) (bandEntry_self M 0)

/-- What the corners add to a sum over a row. -/
theorem sum_cornerEntry (M : Tridiagonal ℝ (n + 3)) (h : M.cyclic = true)
    (i : Fin (n + 3)) (f : Fin (n + 3) → ℝ → ℝ) (hf : ∀ j, f j 0 = 0) :
    ∑ j, f j (M.cornerEntry i j)
      = (if i = 0 then f (Fin.last _) M.topRight else 0)
        + (if i = Fin.last _ then f 0 M.bottomLeft else 0) := by
  have hlast (j : Fin (n + 3)) : j.val + 1 = n + 3 ↔ j = Fin.last _ := by
    rw [Fin.ext_iff, Fin.val_last]
    omega
  have hfirst (j : Fin (n + 3)) : j.val = 0 ↔ j = 0 := by
    rw [Fin.ext_iff]
    rfl
  have hne : (Fin.last (n + 2)) ≠ 0 := Fin.last_pos.ne'
  have hthree : 2 < n + 3 := by omega
  simp only [cornerEntry, h, hthree, hlast, hfirst, true_and]
  by_cases h0 : i = 0
  · subst h0
    simp only [true_and, hne.symm, false_and, if_false, if_true, add_zero]
    rw [Finset.sum_eq_single (Fin.last _)]
    · rw [if_pos rfl]
    · intro j _ hj
      rw [if_neg hj, hf]
    · intro hm
      exact absurd (Finset.mem_univ _) hm
  · simp only [h0, false_and, if_false, zero_add]
    by_cases hl : i = Fin.last _
    · subst hl
      simp only [true_and, if_true]
      rw [Finset.sum_eq_single 0]
      · rw [if_pos rfl]
      · intro j _ hj
        rw [if_neg hj, hf]
      · intro hm
        exact absurd (Finset.mem_univ _) hm
    · simp only [hl, false_and, if_false]
      exact Finset.sum_eq_zero fun j _ => hf j

/-- The product with a row of a cyclic matrix has a term for its corner. -/
theorem matrix_mulVec (M : Tridiagonal ℝ (n + 3)) (h : M.cyclic = true)
    (d x : Vector ℝ (n + 3)) (i : Fin (n + 3)) :
    (M.matrix *ᵥ x.get) i
      = (M.equation d i).left * entryOrZero x (i.val - 1)
        + (M.equation d i).diag * entryOrZero x i.val
        + (M.equation d i).right * entryOrZero x (i.val + 1)
        + ((if i = 0 then M.topRight * x.get (Fin.last _) else 0)
          + (if i = Fin.last _ then M.bottomLeft * x.get 0 else 0)) := by
  rw [← bandMatrix_mulVec]
  have hcorner := sum_cornerEntry M h i (fun j e => e * x.get j)
    (fun j => zero_mul _)
  rw [← hcorner, mulVec_apply_eq_sum, mulVec_apply_eq_sum,
    ← Finset.sum_add_distrib]
  refine Finset.sum_congr rfl fun j _ => ?_
  rw [matrix_apply, add_mul]
  rfl

end PiecewiseCubic.Tridiagonal
