import PiecewiseCubic.Proofs.Checked
import PiecewiseCubic.Proofs.Tridiagonal.Rows

/-! # Solutions are solutions

    The elimination divides by pivots that it has compared before, so over
    checked scalars it runs as it does over the reals.  The other divisions
    of a solver have no such guard.  Where one is by zero, nothing that is
    answered is a number; where none is, the answer solves the system. -/

namespace PiecewiseCubic

open Checked Matrix

/-! ## Numbers as checked scalars -/

/-- The equation between checked scalars. -/
def Equation.checked (e : Equation ℝ) : Equation Checked :=
  ⟨.number e.left, .number e.diag, .number e.right, .number e.rhs⟩

/-- The pivot equation between checked scalars. -/
def Pivot.checked (p : Pivot ℝ) : Pivot Checked :=
  ⟨.number p.diag, .number p.right, .number p.rhs⟩

/-- The column of checked scalars. -/
def Column.checked (c : Column ℝ) : Column Checked :=
  ⟨.number c.above, .number c.diag, .number c.below⟩

namespace Tridiagonal

variable {n : ℕ}

/-- The matrix of checked scalars. -/
def checked (M : Tridiagonal ℝ n) : Tridiagonal Checked n where
  cyclic := M.cyclic
  columns := M.columns.map Column.checked
  topRight := .number M.topRight
  bottomLeft := .number M.bottomLeft

theorem get_map_number (x : Vector ℝ n) (i : Fin n) :
    (x.map number).get i = number (x.get i) :=
  Vector.getElem_map _ _

theorem map_number_injective {x y : Vector ℝ n}
    (h : x.map number = y.map number) : x = y := by
  ext i hi
  have hi' := congrArg (Vector.get · ⟨i, hi⟩) h
  simp only [get_map_number, number.injEq] at hi'
  exact hi'

/-- Defined scalars are numbers. -/
theorem exists_eq_map_number {v : Vector Checked n}
    (h : ∀ i, v.get i ≠ undefined) : ∃ x : Vector ℝ n, v = x.map number := by
  have hnumber : ∀ i, ∃ x, v.get i = number x := by
    intro i
    cases hi : v.get i with
    | undefined => exact absurd hi (h i)
    | number x => exact ⟨x, rfl⟩
  choose x hx using hnumber
  refine ⟨Vector.ofFn x, Vector.ext fun i hi => ?_⟩
  rw [Vector.getElem_map, Vector.getElem_ofFn]
  exact hx ⟨i, hi⟩

/-! ## The elimination -/

theorem backSubstitute_checked {diag : ℝ} (h : diag ≠ 0)
    (right second rhs : ℝ) (xs : List ℝ) :
    backSubstitute (number diag) (number right) (number second) (number rhs)
        (xs.map number)
      = (backSubstitute diag right second rhs xs).map number := by
  rcases xs with _ | ⟨x₁, _ | ⟨x₂, xs⟩⟩
  · simp [backSubstitute, number_div _ h]
  · simp [backSubstitute, number_div _ h]
  · simp [backSubstitute, number_div _ h]

theorem eliminate_nil_checked (cur : Pivot ℝ) :
    eliminate cur.checked [] = if cur.diag = 0 then none
      else some [number (cur.rhs / cur.diag)] := by
  rw [eliminate]
  refine (ite_number_beq cur.diag 0 _ _).trans ?_
  split_ifs with hd
  · rfl
  · exact congrArg (fun x => some [x]) (number_div _ hd)

/-- What is divided by is not zero: without an exchange it has been tested,
    with one it is the larger coefficient. -/
theorem eliminate_cons_checked (cur : Pivot ℝ) (next : Equation ℝ)
    (rest : List (Equation Checked)) :
    eliminate cur.checked (next.checked :: rest) =
      if |next.left| ≤ |cur.diag| then
        if cur.diag = 0 then none
        else (eliminate (cur.reduce next).checked rest).map
          (backSubstitute (number cur.diag) (number cur.right) (number 0)
            (number cur.rhs))
      else (eliminate (cur.exchange next).checked rest).map
        (backSubstitute (number next.left) (number next.diag)
          (number next.right) (number next.rhs)) := by
  rw [eliminate]
  by_cases hle : |next.left| ≤ |cur.diag|
  · rw [if_pos hle]
    refine (if_pos hle).trans ((ite_number_beq cur.diag 0 _ _).trans ?_)
    split_ifs with hd
    · rfl
    · have hf := number_div next.left hd
      simp only [Equation.checked, Pivot.checked, hf]
      rfl
  · have hf := number_div cur.diag (ne_zero_of_not_abs_le hle)
    rw [if_neg hle]
    refine (if_neg hle).trans ?_
    simp only [Equation.checked, Pivot.checked, hf]
    rfl

/-- **THE ELIMINATION** divides by no zero. -/
theorem eliminate_checked (cur : Pivot ℝ) (eqs : List (Equation ℝ)) :
    eliminate cur.checked (eqs.map Equation.checked)
      = (eliminate cur eqs).map (List.map number) := by
  induction eqs generalizing cur with
  | nil =>
      rw [List.map_nil, eliminate_nil, eliminate_nil_checked]
      split_ifs <;> rfl
  | cons next rest ih =>
      have hstep : ∀ (p : Pivot ℝ) {diag : ℝ} (right second rhs : ℝ),
          diag ≠ 0 →
          (eliminate p.checked (rest.map Equation.checked)).map
              (backSubstitute (number diag) (number right) (number second)
                (number rhs))
            = ((eliminate p rest).map
                (backSubstitute diag right second rhs)).map
              (List.map number) := by
        intro p diag right second rhs hd
        rw [ih, Option.map_map, Option.map_map]
        refine congrArg (Option.map · _) (funext fun xs => ?_)
        exact backSubstitute_checked hd right second rhs xs
      rw [List.map_cons, eliminate_cons_eq, eliminate_cons_checked]
      split_ifs with hle hd
      · rfl
      · exact hstep _ _ _ _ hd
      · exact hstep _ _ _ _ (ne_zero_of_not_abs_le hle)

/-! ## Matrices -/

theorem get_columns_checked (M : Tridiagonal ℝ n) (j : Fin n) :
    M.checked.columns.get j = (M.columns.get j).checked :=
  Vector.getElem_map _ _

theorem equation_checked (M : Tridiagonal ℝ n) (d : Vector ℝ n) (i : Fin n) :
    M.checked.equation (d.map number) i = (M.equation d i).checked := by
  simp only [equation, get_columns_checked, get_map_number]
  rw [Equation.checked]
  congr 1
  · split_ifs <;> rfl
  · split_ifs <;> rfl

/-- **THREE DIAGONALS** are solved as they are over the reals. -/
theorem solveBands_checked (M : Tridiagonal ℝ (n + 1))
    (d : Vector ℝ (n + 1)) :
    M.checked.solveBands (d.map number)
      = (M.solveBands d).map (Vector.map number) := by
  have hrest : (List.ofFn fun i : Fin n =>
        M.checked.equation (d.map number) i.succ)
      = (M.laterEquations d).map Equation.checked := by
    simp only [laterEquations, equation_checked, List.map_ofFn]
    rfl
  have hrun : eliminate (M.firstPivot d) (M.laterEquations d)
      = (M.solveBands d).map Vector.toList := (M.toList_solveBands d).symm
  have hlists : Function.Injective
      fun x : Vector Checked (n + 1) => x.toList :=
    fun x y h => Vector.toList_inj.mp h
  refine Option.map_injective hlists ?_
  refine (M.checked.toList_solveBands (d.map number)).trans ?_
  rw [hrest, equation_checked]
  refine (eliminate_checked (M.firstPivot d) (M.laterEquations d)).trans ?_
  rw [hrun, Option.map_map, Option.map_map]
  exact congrArg (Option.map · _) (funext fun x => (Vector.toList_map ..).symm)

/-! ## Corners -/

theorem shift_checked (M : Tridiagonal ℝ (n + 1)) :
    M.checked.shift = number M.shift := by
  rw [shift, get_columns_checked]
  rfl

theorem write_checked (M : Tridiagonal ℝ n) (j : Fin n) (x : ℝ) :
    M.checked.write (.diag j) (number x) = (M.write (.diag j) x).checked := by
  have hcolumn : M.checked.columns[j] = (M.columns[j]).checked :=
    Vector.getElem_map _ _
  rw [write, write, hcolumn, checked, checked]
  congr 1
  show (M.columns.map Column.checked).set j.val
      (Column.checked { M.columns[j] with diag := x }) j.isLt
    = (M.columns.set j.val { M.columns[j] with diag := x } j.isLt).map
      Column.checked
  exact Vector.map_set.symm

theorem withoutCorners_checked (M : Tridiagonal ℝ (n + 1)) {gamma : ℝ}
    (h : gamma ≠ 0) :
    M.checked.withoutCorners (number gamma)
      = (M.withoutCorners gamma).checked := by
  have hfirst : (M.checked.columns.get firstPlace).diag - number gamma
      = number ((M.columns.get firstPlace).diag - gamma) := by
    rw [get_columns_checked]
    rfl
  have hcorners : M.checked.bottomLeft * M.checked.topRight / number gamma
      = number (M.bottomLeft * M.topRight / gamma) :=
    number_div (M.bottomLeft * M.topRight) h
  rw [withoutCorners, withoutCorners, hfirst, hcorners, write_checked,
    get_columns_checked]
  exact write_checked _ _ _

theorem cornerColumn_checked (M : Tridiagonal ℝ (n + 1)) (gamma : ℝ) :
    M.checked.cornerColumn (number gamma)
      = (M.cornerColumn gamma).map number := by
  rw [cornerColumn, cornerColumn, Vector.map_ofFn]
  refine congrArg Vector.ofFn (funext fun i => ?_)
  rw [Function.comp_apply, apply_ite number, apply_ite number]
  rfl

theorem cornerProduct_checked (M : Tridiagonal ℝ (n + 1)) {gamma : ℝ}
    (h : gamma ≠ 0) (x : Vector ℝ (n + 1)) :
    M.checked.cornerProduct (number gamma) (x.map number)
      = number (M.cornerProduct gamma x) := by
  have hquotient : M.checked.topRight / number gamma
      = number (M.topRight / gamma) := number_div M.topRight h
  rw [cornerProduct, get_map_number, get_map_number, hquotient]
  rfl

/-- A quotient by zero leaves nothing of the product. -/
theorem cornerProduct_zero (M : Tridiagonal ℝ (n + 1))
    (x : Vector Checked (n + 1)) :
    M.checked.cornerProduct (number 0) x = undefined := by
  rw [cornerProduct, div_number_zero, undefined_mul, add_undefined]

theorem hasCorner_checked (M : Tridiagonal ℝ n) :
    M.checked.hasCorner = M.hasCorner :=
  congrArg₂ (fun a b => !a || !b) (number_beq M.topRight 0)
    (number_beq M.bottomLeft 0)

open Scalar in
/-- The combination of two solutions, unless it divides by zero. -/
theorem combined_checked (M : Tridiagonal ℝ (n + 3)) {gamma : ℝ}
    (h : gamma ≠ 0) (y : Vector ℝ (n + 3)) {z : Vector ℝ (n + 3)}
    (hone : 1 + M.cornerProduct gamma z ≠ 0) :
    (Vector.ofFn fun i => (y.map number).get i
        - M.checked.cornerProduct (number gamma) (y.map number)
          / (1 + M.checked.cornerProduct (number gamma) (z.map number))
          * (z.map number).get i)
      = (M.combined gamma y z).map number := by
  rw [combined, Vector.map_ofFn]
  refine congrArg Vector.ofFn (funext fun i => ?_)
  rw [get_map_number, get_map_number, cornerProduct_checked M h,
    cornerProduct_checked M h]
  show number (y.get i) - number (M.cornerProduct gamma y)
      / number (1 + M.cornerProduct gamma z) * number (z.get i) = _
  rw [number_div _ hone]
  rfl

/-- **CYCLIC SYSTEMS**: numbers are answered where neither the shift nor the
    last number that is divided by is zero. -/
theorem solveCyclic_checked_iff {M : Tridiagonal ℝ (n + 3)}
    {d x : Vector ℝ (n + 3)} :
    M.checked.solveCyclic (d.map number) = some (x.map number) ↔
      M.shift ≠ 0 ∧ ∃ y z,
        (M.withoutCorners M.shift).solveBands d = some y
          ∧ (M.withoutCorners M.shift).solveBands (M.cornerColumn M.shift)
            = some z
          ∧ 1 + M.cornerProduct M.shift z ≠ 0
          ∧ M.combined M.shift y z = x := by
  rw [solveCyclic]
  simp only [Option.bind_eq_bind, Option.bind_eq_some_iff, Option.pure_def,
    Option.some.injEq, shift_checked]
  constructor
  · rintro ⟨y, hy, z, hz, hv⟩
    -- a quotient by zero would leave no number in the first place
    have hfirst := congrArg (Vector.get · firstPlace) hv
    simp only [Vector.get_ofFn, get_map_number] at hfirst
    have hgamma : M.shift ≠ 0 := by
      intro hzero
      rw [hzero, cornerProduct_zero, undefined_div, undefined_mul,
        sub_undefined] at hfirst
      exact undefined_ne_number _ hfirst
    rw [withoutCorners_checked M hgamma, solveBands_checked] at hy
    rw [withoutCorners_checked M hgamma, cornerColumn_checked,
      solveBands_checked] at hz
    obtain ⟨y, hy', rfl⟩ := Option.map_eq_some_iff.mp hy
    obtain ⟨z, hz', rfl⟩ := Option.map_eq_some_iff.mp hz
    have hone : 1 + M.cornerProduct M.shift z ≠ 0 := by
      intro hzero
      rw [cornerProduct_checked M hgamma z] at hfirst
      replace hfirst : _ - _ / number (1 + M.cornerProduct M.shift z) * _
        = number (x.get firstPlace) := hfirst
      rw [hzero, div_number_zero, undefined_mul, sub_undefined] at hfirst
      exact undefined_ne_number _ hfirst
    rw [combined_checked M hgamma y hone] at hv
    exact ⟨hgamma, y, z, hy', hz', hone, map_number_injective hv⟩
  · rintro ⟨hgamma, y, z, hy, hz, hone, rfl⟩
    refine ⟨y.map number, ?_, z.map number, ?_,
      combined_checked M hgamma y hone⟩
    · rw [withoutCorners_checked M hgamma, solveBands_checked, hy]
      rfl
    · rw [withoutCorners_checked M hgamma, cornerColumn_checked,
        solveBands_checked, hz]
      rfl

/-- A dominated cyclic system is solved without a quotient by zero. -/
theorem exists_solveCyclic_checked {M : Tridiagonal ℝ (n + 3)}
    (hcyclic : M.cyclic = true) (h : RowDominant M.matrix)
    (d : Vector ℝ (n + 3)) :
    ∃ x : Vector ℝ (n + 3),
      M.checked.solveCyclic (d.map number) = some (x.map number) := by
  obtain ⟨hshift, y, z, hy, hz, hone⟩ :=
    exists_parts_of_rowDominant hcyclic h d
  exact ⟨_, solveCyclic_checked_iff.mpr ⟨hshift, y, z, hy, hz, hone, rfl⟩⟩

/-! ## What is answered -/

/-- A matrix of order one answers a quotient, tested or not. -/
theorem solve_one_run (M : Tridiagonal ℝ 1) (d : Vector ℝ 1) :
    M.checked.solve (d.map number)
      = some #v[number (d.get 0) / number (M.columns.get 0).diag] := by
  have hcolumn : (M.checked.columns.get 0).diag
      = number (M.columns.get 0).diag :=
    congrArg Column.diag (get_columns_checked M 0)
  rw [← get_map_number, ← hcolumn]
  rfl

/-- The quotient is a number where the divisor is not zero. -/
theorem solve_one_checked_iff {M : Tridiagonal ℝ 1} {d x : Vector ℝ 1} :
    M.checked.solve (d.map number) = some (x.map number)
      ↔ (M.columns.get 0).diag ≠ 0
        ∧ d.get 0 / (M.columns.get 0).diag = x.get 0 := by
  rw [solve_one_run, Option.some.injEq]
  constructor
  · intro h
    have hx := congrArg (Vector.get · 0) h
    replace hx : number (d.get 0) / number (M.columns.get 0).diag
        = number (x.get 0) := hx.trans (get_map_number x 0)
    have hdiag : (M.columns.get 0).diag ≠ 0 := by
      intro hzero
      rw [hzero, div_number_zero] at hx
      exact undefined_ne_number _ hx
    rw [number_div _ hdiag, number.injEq] at hx
    exact ⟨hdiag, hx⟩
  · rintro ⟨hdiag, hx⟩
    rw [number_div _ hdiag, hx]
    ext i hi
    obtain rfl : i = 0 := by omega
    exact (get_map_number x 0).symm

/-- A number that a matrix of order one answers solves its system. -/
theorem solve_one_checked {M : Tridiagonal ℝ 1} {d x : Vector ℝ 1}
    (h : M.checked.solve (d.map number) = some (x.map number)) :
    M.solve d = some x ∧ M.matrix *ᵥ x.get = d.get := by
  obtain ⟨hdiag, hx⟩ := solve_one_checked_iff.mp h
  constructor
  · have hanswer : #v[d.get 0 / (M.columns.get 0).diag] = x := by
      ext i hi
      obtain rfl : i = 0 := by omega
      exact hx
    rw [← hanswer]
    rfl
  · funext i
    obtain rfl : i = 0 := Subsingleton.elim i 0
    rw [matrix_one_mulVec]
    show (M.columns.get 0).diag * x.get 0 = d.get 0
    rw [← hx, mul_div_cancel₀ _ hdiag]

/-- Numbers that are answered solve the system. -/
theorem matrix_mulVec_of_solve {M : Tridiagonal ℝ n} {d x : Vector ℝ n}
    (h : M.checked.solve (d.map number) = some (x.map number)) :
    M.solve d = some x ∧ M.matrix *ᵥ x.get = d.get := by
  match n, M, d, x with
  | 0, M, d, x =>
      obtain rfl := map_number_injective (Option.some.inj h)
      exact ⟨rfl, funext fun i => i.elim0⟩
  | 1, M, d, x => exact solve_one_checked h
  | n + 2, M, d, x =>
      rw [solve, hasCorner_checked] at h
      rw [solve]
      by_cases hbands : M.cyclic = false ∨ n = 0 ∨ M.hasCorner = false
      · rw [if_pos hbands]
        replace h := (if_pos hbands).symm.trans h
        rw [solveBands_checked] at h
        obtain ⟨x', hx', heq⟩ := Option.map_eq_some_iff.mp h
        obtain rfl := map_number_injective heq
        refine ⟨hx', ?_⟩
        rw [matrix_eq_bandMatrix (hbands.imp_right (Or.imp_left (by omega)))]
        exact bandMatrix_mulVec_of_solveBands hx'
      · -- only a cyclic matrix of order three or more is left
        rw [if_neg hbands]
        replace h := (if_neg hbands).symm.trans h
        obtain ⟨hcyclic, hn, -⟩ := not_or.mp hbands |>.imp_right not_or.mp
        obtain ⟨n, rfl⟩ := Nat.exists_eq_succ_of_ne_zero hn
        obtain ⟨hgamma, y, z, hy, hz, hone, rfl⟩ :=
          solveCyclic_checked_iff.mp h
        exact ⟨solveCyclic_eq_some_iff.mpr ⟨y, z, hy, hz, rfl⟩,
          matrix_mulVec_combined (eq_true_of_ne_false hcyclic) hgamma hy hz
            hone⟩

/-- **WHAT IS ANSWERED SOLVES THE SYSTEM**: where a solver answers, and
    nothing in the answer is left undefined by a quotient by zero, these are
    the numbers that it answers over the reals, and their product with the
    full matrix is the right-hand side. -/
theorem solve_sound (M : Tridiagonal ℝ n) (d : Vector ℝ n)
    {v : Vector Checked n} (h : M.checked.solve (d.map number) = some v)
    (defined : ∀ i, v.get i ≠ undefined) :
    ∃ x : Vector ℝ n, v = x.map number ∧ M.solve d = some x
      ∧ ∀ i, ∑ j, (M.toDense.get i).get j * x.get j = d.get i := by
  obtain ⟨x, rfl⟩ := exists_eq_map_number defined
  obtain ⟨hsolve, hprod⟩ := matrix_mulVec_of_solve h
  exact ⟨x, rfl, hsolve, fun i => congrFun hprod i⟩

/-- A circle of three with a diagonal that dominates. -/
theorem solve_sound_circle :
    ∃ v : Vector Checked 3,
      (ofCyclicRows fun _ : Fin 3 => (⟨1, 4, 1⟩ : Row ℝ)).checked.solve
          ((#v[6, 6, 6] : Vector ℝ 3).map number) = some v
        ∧ (∀ i, v.get i ≠ undefined)
        ∧ v = (#v[1, 1, 1] : Vector ℝ 3).map number := by
  set M := ofCyclicRows fun _ : Fin 3 => (⟨1, 4, 1⟩ : Row ℝ) with hM
  have hdom : RowDominant M.matrix := by
    refine DominatedRows.rowDominant_cyclic fun i => ?_
    norm_num
  obtain ⟨x, hx⟩ := exists_solveCyclic_checked rfl hdom #v[6, 6, 6]
  have hrun : M.checked.solve ((#v[6, 6, 6] : Vector ℝ 3).map number)
      = some (x.map number) := by
    refine (if_neg ?_).trans hx
    rintro (h | h | h)
    · exact nomatch h
    · exact nomatch h
    · rw [hasCorner_checked, hasCorner_eq_false_iff] at h
      exact one_ne_zero h.1
  have hdefined : ∀ i, (x.map number).get i ≠ undefined := by
    intro i
    rw [get_map_number]
    exact (undefined_ne_number _).symm
  refine ⟨x.map number, hrun, hdefined, ?_⟩
  obtain ⟨x', hx', -, hprod⟩ := solve_sound M #v[6, 6, 6] hrun hdefined
  obtain rfl := map_number_injective hx'
  have hrow : ∀ i : Fin 3,
      1 * x.get (i - 1) + 4 * x.get i + 1 * x.get (i + 1) = 6 := by
    intro i
    refine (ofCyclicRows_mulVec _ x i).symm.trans ((hprod i).trans ?_)
    fin_cases i <;> rfl
  have h0 : 1 * x.get 2 + 4 * x.get 0 + 1 * x.get 1 = 6 := hrow 0
  have h1 : 1 * x.get 0 + 4 * x.get 1 + 1 * x.get 2 = 6 := hrow 1
  have h2 : 1 * x.get 1 + 4 * x.get 2 + 1 * x.get 0 = 6 := hrow 2
  refine congrArg (Vector.map number) (Vector.ext fun i hi => ?_)
  interval_cases i
  · show x.get 0 = 1
    linarith
  · show x.get 1 = 1
    linarith
  · show x.get 2 = 1
    linarith

end Tridiagonal

end PiecewiseCubic
