import PiecewiseCubic.Proofs.Tridiagonal.Elimination

/-! # Three diagonals as a matrix

    The equations that the elimination works on are the rows of the matrix
    that the three diagonals make.  So the elimination answers the vector
    whose product with that matrix is the right-hand side, and it answers one
    whenever the determinant does not vanish. -/

namespace PiecewiseCubic.Tridiagonal

open Matrix

variable {n : ℕ}

/-- The matrix of the three diagonals, without corners. -/
noncomputable def bandMatrix (M : Tridiagonal ℝ n) : Matrix (Fin n) (Fin n) ℝ :=
  Matrix.of fun i j => M.bandEntry i j

/-- A sum over all columns has three terms if the others vanish. -/
theorem sum_neighbours (i : Fin n) (F : Fin n → ℝ)
    (hF : ∀ j : Fin n, j ≠ i → i.val + 1 ≠ j.val → j.val + 1 ≠ i.val →
      F j = 0) :
    ∑ j, F j = (if 0 < i.val then F (placeBefore i) else 0) + F i
      + (if h : i.val + 1 < n then F ⟨i.val + 1, h⟩ else 0) := by
  -- a sum with one condition for each of the three places
  have hsplit : ∀ j : Fin n, F j = (if j.val + 1 = i.val then F j else 0)
      + (if j = i then F j else 0)
      + (if i.val + 1 = j.val then F j else 0) := by
    intro j
    by_cases hi : j = i
    · subst hi
      simp
    · by_cases hr : i.val + 1 = j.val
      · simp [hi, hr, show j.val + 1 ≠ i.val by omega]
      · by_cases hl : j.val + 1 = i.val
        · simp [hi, hr, hl]
        · simp [hi, hr, hl, hF j hi hr hl]
  rw [Finset.sum_congr rfl fun j _ => hsplit j, Finset.sum_add_distrib,
    Finset.sum_add_distrib, Finset.sum_ite_eq' Finset.univ i F,
    if_pos (Finset.mem_univ i)]
  congr 2
  · by_cases h : 0 < i.val
    · have hcond : ∀ j : Fin n, j.val + 1 = i.val ↔ j = placeBefore i := by
        intro j
        rw [Fin.ext_iff, ← val_placeBefore_add_one h, Nat.add_left_inj]
      rw [if_pos h]
      simp only [hcond, Finset.sum_ite_eq', Finset.mem_univ, if_true]
    · rw [if_neg h]
      refine Finset.sum_eq_zero fun j _ => if_neg ?_
      omega
  · by_cases h : i.val + 1 < n
    · have hcond : ∀ j : Fin n, i.val + 1 = j.val
          ↔ j = ⟨i.val + 1, h⟩ := by
        intro j
        rw [Fin.ext_iff]
        exact eq_comm
      rw [dif_pos h]
      simp only [hcond, Finset.sum_ite_eq', Finset.mem_univ, if_true]
    · rw [dif_neg h]
      refine Finset.sum_eq_zero fun j _ => if_neg ?_
      omega

section Entries

variable (M : Tridiagonal ℝ n)

theorem bandEntry_self (i : Fin n) :
    M.bandEntry i i = (M.columns.get i).diag := by
  rw [bandEntry, if_pos rfl]

theorem bandEntry_right {i j : Fin n} (h : i.val + 1 = j.val) :
    M.bandEntry i j = (M.columns.get j).above := by
  rw [bandEntry, if_neg (by rintro rfl; omega), if_pos h]

theorem bandEntry_left {i j : Fin n} (h : j.val + 1 = i.val) :
    M.bandEntry i j = (M.columns.get j).below := by
  rw [bandEntry, if_neg (by rintro rfl; omega), if_neg (by omega), if_pos h]

theorem bandEntry_far {i j : Fin n} (hi : j ≠ i) (hr : i.val + 1 ≠ j.val)
    (hl : j.val + 1 ≠ i.val) : M.bandEntry i j = 0 := by
  rw [bandEntry, if_neg (Ne.symm hi), if_neg hr, if_neg hl]
  rfl

end Entries

/-- The number in place `k` of a vector, zero beyond its end. -/
def entryOrZero (x : Vector ℝ n) (k : ℕ) : ℝ := x.toList.getD k 0

theorem entryOrZero_of_lt (x : Vector ℝ n) {k : ℕ} (h : k < n) :
    entryOrZero x k = x[k] := by
  rw [entryOrZero, List.getD_eq_getElem _ _ (by simpa using h)]
  rfl

theorem entryOrZero_of_le (x : Vector ℝ n) {k : ℕ} (h : n ≤ k) :
    entryOrZero x k = 0 :=
  List.getD_eq_default _ _ (by simpa using h)

/-- The product with a row has the three terms of its equation. -/
theorem bandMatrix_mulVec (M : Tridiagonal ℝ n) (d x : Vector ℝ n)
    (i : Fin n) :
    (M.bandMatrix *ᵥ x.get) i
      = (M.equation d i).left * entryOrZero x (i.val - 1)
        + (M.equation d i).diag * entryOrZero x i.val
        + (M.equation d i).right * entryOrZero x (i.val + 1) := by
  rw [Matrix.mulVec_apply_eq_sum, sum_neighbours i]
  · congr 2
    · by_cases h : 0 < i.val
      · rw [if_pos h, entryOrZero_of_lt x (by omega)]
        show M.bandEntry i _ * _ = (if 0 < i.val then _ else _) * _
        rw [if_pos h, bandEntry_left M (val_placeBefore_add_one h)]
        rfl
      · rw [if_neg h]
        show (0 : ℝ) = (if 0 < i.val then _ else (0 : ℝ)) * _
        rw [if_neg h, zero_mul]
    · rw [entryOrZero_of_lt x i.isLt]
      show M.bandEntry i i * _ = _
      rw [bandEntry_self]
      rfl
    · by_cases h : i.val + 1 < n
      · rw [dif_pos h, entryOrZero_of_lt x h]
        show M.bandEntry i _ * _ = (dite (i.val + 1 < n) _ _) * _
        rw [dif_pos h, bandEntry_right M (by rfl)]
        rfl
      · rw [dif_neg h, entryOrZero_of_le x (Nat.not_lt.mp h), mul_zero]
  · intro j hi hr hl
    show M.bandEntry i j * x.get j = 0
    rw [bandEntry_far M hi hr hl, zero_mul]

/-! ## The system of the elimination -/

/-- The first equation without the unknown before it. -/
noncomputable def firstPivot (M : Tridiagonal ℝ (n + 1))
    (d : Vector ℝ (n + 1)) : Pivot ℝ :=
  let first := M.equation d firstPlace
  ⟨first.diag, first.right, first.rhs⟩

/-- The equations behind the first one. -/
noncomputable def laterEquations (M : Tridiagonal ℝ (n + 1))
    (d : Vector ℝ (n + 1)) : List (Equation ℝ) :=
  List.ofFn fun i : Fin n => M.equation d i.succ

theorem length_laterEquations (M : Tridiagonal ℝ (n + 1))
    (d : Vector ℝ (n + 1)) : (M.laterEquations d).length = n :=
  List.length_ofFn

theorem getElem_laterEquations (M : Tridiagonal ℝ (n + 1))
    (d : Vector ℝ (n + 1)) (i : Fin n)
    (hi : i.val < (M.laterEquations d).length) :
    (M.laterEquations d)[i.val] = M.equation d i.succ :=
  List.getElem_ofFn hi

/-- The elimination solves the equations of the matrix. -/
theorem solves_iff_mulVec (M : Tridiagonal ℝ (n + 1))
    (d x : Vector ℝ (n + 1)) :
    Solves (M.firstPivot d) (M.laterEquations d) x.toList ↔
      M.bandMatrix *ᵥ x.get = d.get := by
  have hzero : (M.firstPivot d).Holds x.toList ↔
      (M.bandMatrix *ᵥ x.get) 0 = d.get 0 := by
    rw [bandMatrix_mulVec M d x 0]
    have hleft : (M.equation d 0).left = 0 := rfl
    rw [hleft, zero_mul, zero_add]
    exact Iff.rfl
  have hsucc (i : Fin n) :
      (M.equation d i.succ).Holds (x.toList.drop i) ↔
        (M.bandMatrix *ᵥ x.get) i.succ = d.get i.succ := by
    have hdrop (k : ℕ) :
        (x.toList.drop i.val).getD k 0 = entryOrZero x (i.val + k) := by
      simp [entryOrZero, List.getD_eq_getElem?_getD, List.getElem?_drop]
    rw [bandMatrix_mulVec M d x i.succ, Equation.Holds, hdrop, hdrop, hdrop]
    exact Iff.rfl
  constructor
  · rintro ⟨hp, hrest⟩
    obtain ⟨-, hrows⟩ := satisfyAll_iff.mp hrest
    funext i
    refine Fin.cases (hzero.mp hp) (fun j => (hsucc j).mp ?_) i
    have hrow := hrows j.val (j.isLt.trans_eq (length_laterEquations M d).symm)
    rw [getElem_laterEquations] at hrow
    exact hrow
  · intro h
    refine ⟨hzero.mpr (congrFun h 0), satisfyAll_iff.mpr ⟨?_, ?_⟩⟩
    · rw [Vector.length_toList, length_laterEquations]
    · intro i hi
      have hin : i < n := hi.trans_eq (length_laterEquations M d)
      rw [getElem_laterEquations M d ⟨i, hin⟩]
      exact (hsucc ⟨i, hin⟩).mpr (congrFun h _)

/-- What is answered are the unknowns that the elimination found. -/
theorem toList_solveBands {α : Type} [Scalar α] (M : Tridiagonal α (n + 1))
    (d : Vector α (n + 1)) :
    (M.solveBands d).map Vector.toList
      = eliminate ⟨(M.equation d firstPlace).diag,
          (M.equation d firstPlace).right, (M.equation d firstPlace).rhs⟩
        (List.ofFn fun i : Fin n => M.equation d i.succ) := by
  rw [solveBands]
  split
  · rename_i hnone
    exact hnone.symm
  · rename_i xs hxs
    exact hxs.symm

theorem eliminate_of_solveBands {M : Tridiagonal ℝ (n + 1)}
    {d x : Vector ℝ (n + 1)} (h : M.solveBands d = some x) :
    eliminate (M.firstPivot d) (M.laterEquations d) = some x.toList := by
  have hrun := M.toList_solveBands d
  rw [h] at hrun
  exact hrun.symm

/-- Nothing is answered only if the elimination stops. -/
theorem eliminate_of_solveBands_eq_none {M : Tridiagonal ℝ (n + 1)}
    {d : Vector ℝ (n + 1)} (h : M.solveBands d = none) :
    eliminate (M.firstPivot d) (M.laterEquations d) = none := by
  have hrun := M.toList_solveBands d
  rw [h] at hrun
  exact hrun.symm

/-- **THREE DIAGONALS ARE SOLVED**: the product of the matrix with the answer
    is the right-hand side. -/
theorem bandMatrix_mulVec_of_solveBands {M : Tridiagonal ℝ (n + 1)}
    {d x : Vector ℝ (n + 1)} (h : M.solveBands d = some x) :
    M.bandMatrix *ᵥ x.get = d.get :=
  (solves_iff_mulVec M d x).mp
    ((solves_iff_of_eliminate (eliminate_of_solveBands h) _).mpr rfl)

/-- **THREE DIAGONALS WITHOUT AN ANSWER** are a singular matrix. -/
theorem det_bandMatrix_of_solveBands_eq_none {M : Tridiagonal ℝ (n + 1)}
    {d : Vector ℝ (n + 1)} (h : M.solveBands d = none) :
    M.bandMatrix.det = 0 := by
  obtain ⟨xs, hsolves, x, hx, hx0⟩ :=
    exists_solves_of_eliminate_eq_none (eliminate_of_solveBands_eq_none h)
  have hlen : xs.length = n + 1 := by
    rw [hsolves.2.length_eq, List.length_map, length_laterEquations]
  -- the same matrix with zeros on the right-hand side
  let zeros : Vector ℝ (n + 1) := Vector.replicate (n + 1) 0
  let v : Vector ℝ (n + 1) := ⟨xs.toArray, by simpa using hlen⟩
  have hpivot : (M.firstPivot d).homogeneous = M.firstPivot zeros := by
    simp [firstPivot, Pivot.homogeneous, equation, zeros]
  have hrest : (M.laterEquations d).map Equation.homogeneous
      = M.laterEquations zeros := by
    simp [laterEquations, Equation.homogeneous, equation, zeros,
      List.map_ofFn, Function.comp_def]
  have hv : M.bandMatrix *ᵥ v.get = zeros.get := by
    rw [← solves_iff_mulVec, ← hpivot, ← hrest]
    exact hsolves
  refine Matrix.exists_mulVec_eq_zero_iff.mp ⟨v.get, ?_, ?_⟩
  · intro h0
    obtain ⟨i, hi, rfl⟩ := List.getElem_of_mem hx
    exact hx0 (congrFun h0 ⟨i, by omega⟩)
  · rw [hv]
    funext i
    simp [zeros, Vector.get_eq_getElem]

end PiecewiseCubic.Tridiagonal
