import PiecewiseCubic.Proofs.Tridiagonal.Dominance

/-! # Matrices made of rows

    A matrix made of rows multiplies as its rows say: each one takes its own
    unknown and the two beside it.  In a cyclic matrix the unknowns stand in
    a circle, also where there are only two of them.  Rows that are dominated
    one by one make a dominated matrix. -/

namespace PiecewiseCubic.Tridiagonal

open Matrix

variable {n : ℕ}

/-- The equation of a row; what it has beyond the two ends is dropped. -/
theorem equation_ofRows (row : Fin n → Row ℝ) (d : Vector ℝ n) (i : Fin n) :
    (ofRows row).equation d i =
      { left := if 0 < i.val then (row i).left else 0
        diag := (row i).diag
        right := if i.val + 1 < n then (row i).right else 0
        rhs := d.get i } := by
  simp only [equation, ofRows, Vector.get_ofFn, Equation.mk.injEq, true_and,
    and_true]
  constructor
  · by_cases h : 0 < i.val
    · have hval := val_placeBefore_add_one h
      rw [if_pos h, if_pos h, dif_pos (hval.trans_lt i.isLt)]
      exact congrArg (fun j => (row j).left) (Fin.ext hval)
    · rw [if_neg h, if_neg h]
      rfl
  · by_cases h : i.val + 1 < n
    · rw [dif_pos h, if_pos h, if_pos (Nat.succ_pos _)]
      rfl
    · rw [dif_neg h, if_neg h]
      rfl

/-- The product with a matrix made of rows. -/
theorem ofRows_mulVec (row : Fin n → Row ℝ) (x : Vector ℝ n) (i : Fin n) :
    ((ofRows row).bandMatrix *ᵥ x.get) i
      = (if 0 < i.val then (row i).left * entryOrZero x (i.val - 1) else 0)
        + (row i).diag * x.get i
        + (row i).right * entryOrZero x (i.val + 1) := by
  rw [bandMatrix_mulVec _ x x i, equation_ofRows,
    entryOrZero_of_lt x i.isLt]
  congr 1
  · congr 1
    show (if _ then _ else _) * _ = _
    rw [ite_mul, zero_mul]
  · show (if _ then _ else _) * _ = _
    by_cases h : i.val + 1 < n
    · rw [if_pos h]
    · rw [if_neg h, entryOrZero_of_le x (Nat.not_lt.mp h), zero_mul, mul_zero]

/-- The first row has no unknown before its own. -/
theorem ofRows_mulVec_first (row : Fin (n + 2) → Row ℝ)
    (x : Vector ℝ (n + 2)) :
    ((ofRows row).bandMatrix *ᵥ x.get) 0
      = (row 0).diag * x.get 0 + (row 0).right * x.get 1 := by
  have hfirst : ¬ 0 < (0 : Fin (n + 2)).val := lt_irrefl 0
  rw [ofRows_mulVec, if_neg hfirst, zero_add]
  show _ + _ * entryOrZero x 1 = _
  rw [entryOrZero_of_lt x (by omega)]
  rfl

/-- A row between the first and the last one. -/
theorem ofRows_mulVec_inner (row : Fin (n + 2) → Row ℝ)
    (x : Vector ℝ (n + 2)) (k : Fin n) :
    ((ofRows row).bandMatrix *ᵥ x.get) k.succ.castSucc
      = (row k.succ.castSucc).left * x.get k.castSucc.castSucc
        + (row k.succ.castSucc).diag * x.get k.succ.castSucc
        + (row k.succ.castSucc).right * x.get k.succ.succ := by
  rw [ofRows_mulVec]
  show (if 0 < k.val + 1 then _ * entryOrZero x k.val else 0) + _
    + _ * entryOrZero x (k.val + 2) = _
  rw [if_pos (Nat.succ_pos k.val), entryOrZero_of_lt x (by omega),
    entryOrZero_of_lt x (by omega)]
  rfl

/-- The last row has no unknown behind its own. -/
theorem ofRows_mulVec_last (row : Fin (n + 2) → Row ℝ)
    (x : Vector ℝ (n + 2)) :
    ((ofRows row).bandMatrix *ᵥ x.get) (Fin.last _)
      = (row (Fin.last _)).left * x.get (Fin.last n).castSucc
        + (row (Fin.last _)).diag * x.get (Fin.last _) := by
  rw [ofRows_mulVec]
  show (if 0 < n + 1 then _ * entryOrZero x n else 0) + _
    + _ * entryOrZero x (n + 2) = _
  rw [if_pos (Nat.succ_pos n), entryOrZero_of_le x (le_refl (n + 2)),
    mul_zero, add_zero, entryOrZero_of_lt x (by omega)]
  rfl

/-- Each row is dominated by the element on the diagonal. -/
def DominatedRows (row : Fin n → Row ℝ) : Prop :=
  ∀ i, |(row i).left| + |(row i).right| < |(row i).diag|

/-- What is dropped of a row does not count against it. -/
theorem sum_abs_ofRows_le (row : Fin n → Row ℝ) (d : Vector ℝ n)
    (i : Fin n) :
    |((ofRows row).equation d i).left| + |((ofRows row).equation d i).right|
      ≤ |(row i).left| + |(row i).right| := by
  rw [equation_ofRows]
  refine add_le_add ?_ ?_
  · show |if _ then _ else _| ≤ _
    split_ifs
    · exact le_refl _
    · rw [abs_zero]
      exact abs_nonneg _
  · show |if _ then _ else _| ≤ _
    split_ifs
    · exact le_refl _
    · rw [abs_zero]
      exact abs_nonneg _

theorem DominatedRows.rowDominant {row : Fin n → Row ℝ}
    (h : DominatedRows row) : RowDominant (ofRows row).matrix := by
  intro i
  let d : Vector ℝ n := Vector.replicate _ 0
  have hmatrix : (ofRows row).matrix = (ofRows row).bandMatrix :=
    matrix_eq_bandMatrix (Or.inl rfl)
  rw [matrix_diag _ d, hmatrix, equation_ofRows]
  show ∑ j ∈ _, |(ofRows row).bandEntry i j| < |(row i).diag|
  rw [sum_abs_bandEntry _ d]
  exact lt_of_le_of_lt (sum_abs_ofRows_le row d i) (h i)

/-! ## Rows in a circle -/

theorem get_eq_entryOrZero (x : Vector ℝ n) (i : Fin n) :
    x.get i = entryOrZero x i.val :=
  (entryOrZero_of_lt x i.isLt).symm

/-- The unknown before the first one is the last one. -/
theorem get_sub_one (x : Vector ℝ (n + 2)) (i : Fin (n + 2)) :
    x.get (i - 1)
      = if i = 0 then x.get (Fin.last _)
        else entryOrZero x (i.val - 1) := by
  by_cases h : i = 0
  · rw [if_pos h, h, zero_sub, get_eq_entryOrZero, Fin.coe_neg_one]
    exact (get_eq_entryOrZero x (Fin.last _)).symm
  · rw [if_neg h, get_eq_entryOrZero, Fin.val_sub_one_of_ne_zero h]

/-- The unknown behind the last one is the first one. -/
theorem get_add_one (x : Vector ℝ (n + 2)) (i : Fin (n + 2)) :
    x.get (i + 1)
      = if i = Fin.last _ then x.get 0 else entryOrZero x (i.val + 1) := by
  rw [get_eq_entryOrZero, Fin.val_add_one]
  by_cases h : i = Fin.last _
  · rw [if_pos h, if_pos h]
    exact (get_eq_entryOrZero x 0).symm
  · rw [if_neg h, if_neg h]

/-- In a circle of two the neighbours on both sides are the same. -/
theorem ofCyclicRows_two_mulVec (row : Fin 2 → Row ℝ) (x : Vector ℝ 2)
    (i : Fin 2) :
    ((ofCyclicRows (n := 0) row).matrix *ᵥ x.get) i
      = (row i).left * x.get (i - 1) + (row i).diag * x.get i
        + (row i).right * x.get (i + 1) := by
  rw [matrix_eq_bandMatrix (Or.inr (Or.inl (le_refl 2)))]
  refine (ofRows_mulVec (fun i => foldedRow (row i)) x i).trans ?_
  rcases Fin.exists_fin_two.mp ⟨i, rfl⟩ with rfl | rfl
  · show (if 0 < 0 then _ else (0 : ℝ)) + (row 0).diag * x.get 0
        + ((row 0).left + (row 0).right) * entryOrZero x 1
      = (row 0).left * x.get 1 + (row 0).diag * x.get 0
        + (row 0).right * x.get 1
    rw [if_neg (lt_irrefl 0), get_eq_entryOrZero x 1, Fin.val_one]
    ring
  · show (if 0 < 1 then ((row 1).left + (row 1).right) * entryOrZero x 0
          else 0) + (row 1).diag * x.get 1
        + ((row 1).left + (row 1).right) * entryOrZero x 2
      = (row 1).left * x.get 0 + (row 1).diag * x.get 1
        + (row 1).right * x.get 0
    rw [if_pos Nat.zero_lt_one, entryOrZero_of_le x (le_refl 2),
      get_eq_entryOrZero x 0, Fin.val_zero]
    ring

/-- **ROWS IN A CIRCLE**: the product with a cyclic matrix made of rows. -/
theorem ofCyclicRows_mulVec (row : Fin (n + 2) → Row ℝ)
    (x : Vector ℝ (n + 2)) (i : Fin (n + 2)) :
    ((ofCyclicRows row).matrix *ᵥ x.get) i
      = (row i).left * x.get (i - 1) + (row i).diag * x.get i
        + (row i).right * x.get (i + 1) := by
  match n, row, x, i with
  | 0, row, x, i => exact ofCyclicRows_two_mulVec row x i
  | n + 1, row, x, i =>
      have hequation : (ofCyclicRows row).equation x i
          = (ofRows row).equation x i := rfl
      have hne : Fin.last (n + 2) ≠ 0 := Fin.last_pos.ne'
      rw [matrix_mulVec _ rfl x x i, hequation, equation_ofRows, get_sub_one,
        get_add_one, get_eq_entryOrZero]
      show _ + _ + _
        + ((if i = 0 then (row 0).left * x.get (Fin.last _) else 0)
          + (if i = Fin.last _ then (row (Fin.last _)).right * x.get 0
            else 0))
        = _
      by_cases h0 : i = 0
      · subst h0
        rw [if_pos rfl, if_pos rfl, if_neg hne.symm, if_neg hne.symm]
        simp
        ring
      · by_cases hl : i = Fin.last _
        · subst hl
          simp [hne]
        · have hpos : 0 < i.val := Fin.pos_iff_ne_zero.mpr h0
          have hlt : i.val + 1 < n + 3 := by
            have := Fin.val_lt_last hl
            omega
          simp [h0, hl, hpos, hlt]

/-- In a circle of two one of the neighbours is beyond an end. -/
theorem DominatedRows.rowDominant_two {row : Fin 2 → Row ℝ}
    (h : DominatedRows row) :
    RowDominant (ofCyclicRows (n := 0) row).matrix := by
  intro i
  let d : Vector ℝ 2 := Vector.replicate _ 0
  have hequation : (ofCyclicRows (n := 0) row).equation d i
      = (ofRows fun i => foldedRow (row i)).equation d i := rfl
  have hsums := (ofCyclicRows (n := 0) row).sum_abs_bandEntry d i
  rw [hequation, equation_ofRows] at hsums
  rw [matrix_diag _ d, matrix_eq_bandMatrix (Or.inr (Or.inl (le_refl 2))),
    hequation, equation_ofRows]
  refine lt_of_eq_of_lt hsums (lt_of_le_of_lt ?_ (h i))
  have hsum := abs_add_le (row i).left (row i).right
  show |if 0 < i.val then (row i).left + (row i).right else 0|
    + |if i.val + 1 < 2 then (row i).left + (row i).right else 0| ≤ _
  by_cases hi : 0 < i.val
  · rw [if_pos hi, if_neg (by omega), abs_zero, add_zero]
    exact hsum
  · rw [if_neg hi, if_pos (by omega), abs_zero, zero_add]
    exact hsum

/-- Dominated rows in a circle make a dominated matrix. -/
theorem DominatedRows.rowDominant_cyclic {row : Fin (n + 2) → Row ℝ}
    (h : DominatedRows row) : RowDominant (ofCyclicRows row).matrix := by
  match n, row, h with
  | 0, row, h => exact h.rowDominant_two
  | n + 1, row, h =>
      intro i
      let d : Vector ℝ (n + 3) := Vector.replicate _ 0
      have hequation : (ofCyclicRows row).equation d i
          = (ofRows row).equation d i := rfl
      rw [matrix_diag _ d, sum_abs_matrix _ rfl d, hequation,
        equation_ofRows]
      have hne : Fin.last (n + 2) ≠ 0 := Fin.last_pos.ne'
      show _ + ((if i = 0 then |(row 0).left| else 0)
        + (if i = Fin.last _ then |(row (Fin.last _)).right| else 0))
        < |(row i).diag|
      refine lt_of_le_of_lt ?_ (h i)
      -- the corner takes the place of the neighbour beyond an end
      by_cases h0 : i = 0
      · subst h0
        simp [hne.symm, add_comm]
      · by_cases hl : i = Fin.last _
        · subst hl
          simp [hne]
        · have hpos : 0 < i.val := Fin.pos_iff_ne_zero.mpr h0
          have hlt : i.val + 1 < n + 3 := by
            have := Fin.val_lt_last hl
            omega
          simp [h0, hl, hpos, hlt]

end PiecewiseCubic.Tridiagonal
