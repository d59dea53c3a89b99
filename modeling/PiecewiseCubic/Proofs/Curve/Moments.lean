import PiecewiseCubic.Proofs.Curve.Hermite
import PiecewiseCubic.Proofs.Tridiagonal.Rows
import PiecewiseCubic.Curve.Fit

/-! # Moments over the reals

    On ascending points the equations of each smooth family are dominated by
    their diagonal, so they have a solution.  The equation of an inner point
    says that the slopes on both sides of it agree, that of an end fixes the
    slope there. -/

namespace PiecewiseCubic.Moments

open Tridiagonal Matrix

variable {m n : ℕ}

/-- Each point is before the next one. -/
def Ascending (p : Vector (Point ℝ) n) : Prop :=
  ∀ i j : Fin n, i < j → (p.get i).x < (p.get j).x

theorem get_widths (p : Vector (Point ℝ) (m + 2)) (k : Fin (m + 1)) :
    (widths p).get k = (p.get k.succ).x - (p.get k.castSucc).x :=
  Vector.get_ofFn _ k

theorem get_secants (p : Vector (Point ℝ) (m + 2)) (k : Fin (m + 1)) :
    (secants p).get k
      = ((p.get k.succ).y - (p.get k.castSucc).y) / (widths p).get k :=
  Vector.get_ofFn _ k

theorem Ascending.widths_pos {p : Vector (Point ℝ) (m + 2)}
    (asc : Ascending p) (k : Fin (m + 1)) : 0 < (widths p).get k := by
  rw [get_widths]
  exact sub_pos.mpr (asc _ _ Fin.castSucc_lt_succ)

/-! ## Slopes on both sides of a point -/

section Slopes

variable (h s : Vector ℝ (m + 1)) (u : Vector ℝ (m + 2)) (k : Fin (m + 1))

theorem startSlope_eq :
    startSlope h s u k
      = s.get k - h.get k / 6 * (2 * u.get k.castSucc + u.get k.succ) := by
  show s.get k - h.get k / 6 * (u.get k.succ - u.get k.castSucc)
    - u.get k.castSucc * h.get k / 2 = _
  ring

theorem endSlope_eq :
    endSlope h s u k
      = s.get k + h.get k / 6 * (u.get k.castSucc + 2 * u.get k.succ) := by
  show s.get k - h.get k / 6 * (u.get k.succ - u.get k.castSucc)
    + u.get k.succ * h.get k / 2 = _
  ring

end Slopes

/-- The slopes on both sides of each inner point agree. -/
def Joined (p : Vector (Point ℝ) (m + 2)) (u : Vector ℝ (m + 2)) : Prop :=
  ∀ k j : Fin (m + 1), k.val + 1 = j.val →
    endSlope (widths p) (secants p) u k
      = startSlope (widths p) (secants p) u j

/-- The slope at a point is that of the segment behind it. -/
theorem get_slopes_castSucc (p : Vector (Point ℝ) (m + 2))
    (u : Vector ℝ (m + 2)) (k : Fin (m + 1)) :
    (slopes p u).get k.castSucc
      = startSlope (widths p) (secants p) u k := by
  rw [slopes, Vector.get_ofFn]
  exact dif_pos k.isLt

/-- The slope at the last point is that of the segment before it. -/
theorem get_slopes_last (p : Vector (Point ℝ) (m + 2))
    (u : Vector ℝ (m + 2)) :
    (slopes p u).get (Fin.last (m + 1))
      = endSlope (widths p) (secants p) u (Fin.last m) := by
  rw [slopes, Vector.get_ofFn]
  exact dif_neg (lt_irrefl (m + 1))

/-- Joined slopes are those that the segment before a point asks for. -/
theorem Joined.get_slopes_succ {p : Vector (Point ℝ) (m + 2)}
    {u : Vector ℝ (m + 2)} (joined : Joined p u) (k : Fin (m + 1)) :
    (slopes p u).get k.succ = endSlope (widths p) (secants p) u k := by
  by_cases hk : k.val + 1 < m + 1
  · rw [joined k ⟨k.val + 1, hk⟩ rfl]
    exact get_slopes_castSucc p u ⟨k.val + 1, hk⟩
  · obtain rfl : k = Fin.last m := Fin.ext (by show k.val = m; omega)
    exact get_slopes_last p u

/-! ## Rows -/

theorem innerRow_left {l r : ℝ} (hl : 0 < l) (hr : 0 < r) :
    (innerRow l r).left = l / (l + r) := by
  have hne : l + r ≠ 0 := (add_pos hl hr).ne'
  show 1 - r / (l + r) = l / (l + r)
  rw [eq_div_iff hne, sub_mul, div_mul_cancel₀ _ hne]
  ring

/-- **AN INNER EQUATION** says that the slopes before and behind its point
    agree. -/
theorem innerRow_holds_iff {l r before after u v w : ℝ} (hl : 0 < l)
    (hr : 0 < r) :
    (innerRow l r).left * u + (innerRow l r).diag * v
        + (innerRow l r).right * w = bend l r before after
      ↔ before + l / 6 * (u + 2 * v) = after - r / 6 * (2 * v + w) := by
  have hne : l + r ≠ 0 := (add_pos hl hr).ne'
  rw [innerRow_left hl hr]
  show l / (l + r) * u + 2 * v + r / (l + r) * w
    = 6 / (l + r) * (after - before) ↔ _
  have hlhs : l / (l + r) * u + 2 * v + r / (l + r) * w
      = (l * u + 2 * (l + r) * v + r * w) / (l + r) := by
    field_simp
  have hrhs : 6 / (l + r) * (after - before)
      = 6 * (after - before) / (l + r) := by
    field_simp
  rw [hlhs, hrhs, div_left_inj' hne]
  constructor <;> intro e <;> linarith

/-- The moments beside an inner point weigh less than its own. -/
theorem innerRow_dominated {l r : ℝ} (hl : 0 < l) (hr : 0 < r) :
    |(innerRow l r).left| + |(innerRow l r).right|
      < |(innerRow l r).diag| := by
  have hsum : 0 < l + r := add_pos hl hr
  rw [innerRow_left hl hr]
  show |l / (l + r)| + |r / (l + r)| < |(2 : ℝ)|
  rw [abs_of_pos (div_pos hl hsum), abs_of_pos (div_pos hr hsum), ← add_div,
    div_self hsum.ne', abs_two]
  exact one_lt_two

/-- **AN EQUATION AT THE FIRST POINT** fixes the slope there. -/
theorem endBend_first_iff {h slope secant u v : ℝ} (hh : 0 < h) :
    2 * u + 1 * v = endBend h slope secant
      ↔ secant - h / 6 * (2 * u + v) = slope := by
  show 2 * u + 1 * v = 6 / h * (secant - slope) ↔ _
  rw [div_mul_eq_mul_div, eq_div_iff hh.ne']
  constructor <;> intro e <;> linarith

/-- **AN EQUATION AT THE LAST POINT** fixes the slope there. -/
theorem endBend_last_iff {h secant slope u v : ℝ} (hh : 0 < h) :
    1 * u + 2 * v = endBend h secant slope
      ↔ secant + h / 6 * (u + 2 * v) = slope := by
  show 1 * u + 2 * v = 6 / h * (slope - secant) ↔ _
  rw [div_mul_eq_mul_div, eq_div_iff hh.ne']
  constructor <;> intro e <;> linarith

/-! ## What belongs to each point -/

section AtPoint

variable {β : Type} {first last : β} {inner : Fin m → β}

theorem atPoint_map {γ : Type} (f : β → γ) (i : Fin (m + 2)) :
    atPoint (f first) (f last) (fun k => f (inner k)) i
      = f (atPoint first last inner i) := by
  rw [atPoint, atPoint]
  split_ifs <;> rfl

theorem atPoint_first : atPoint first last inner 0 = first := by
  rw [atPoint, dif_neg (fun h => lt_irrefl 0 h.1)]
  rfl

theorem atPoint_last : atPoint first last inner (Fin.last _) = last := by
  rw [atPoint, dif_neg (fun h => lt_irrefl (m + 1) h.2)]
  rfl

theorem atPoint_inner (k : Fin m) :
    atPoint first last inner k.succ.castSucc = inner k := by
  rw [atPoint, dif_pos ⟨Nat.succ_pos _, Nat.succ_lt_succ k.isLt⟩]
  rfl

/-- What holds of both ends and of all points between them holds of all
    points. -/
theorem atPoint_forall {P : β → Prop} (hfirst : P first) (hlast : P last)
    (hinner : ∀ k, P (inner k)) (i : Fin (m + 2)) :
    P (atPoint first last inner i) := by
  rw [atPoint]
  split_ifs
  · exact hinner _
  · exact hfirst
  · exact hlast

end AtPoint

/-- A point is the first one, the last one or one between. -/
theorem forall_points {P : Fin (m + 2) → Prop} (hfirst : P 0)
    (hlast : P (Fin.last _)) (hinner : ∀ k : Fin m, P k.succ.castSucc)
    (i : Fin (m + 2)) : P i := by
  cases i using Fin.lastCases with
  | last => exact hlast
  | cast j =>
      cases j using Fin.cases with
      | zero => exact hfirst
      | succ k => exact hinner k

/-! ## Solving the equations -/

/-- A dominated system has moments. -/
theorem exists_moments {M : Tridiagonal ℝ n} (dom : RowDominant M.matrix)
    (bends : Vector ℝ n) :
    ∃ u, Curve.moments M bends = .ok u ∧ M.matrix *ᵥ u.get = bends.get := by
  obtain ⟨u, hsolve, hu⟩ := exists_solve_of_rowDominant dom bends
  refine ⟨u, ?_, hu⟩
  rw [Curve.moments, hsolve]

/-- **THE MOMENTS OF A DOMINATED SYSTEM** are its only solution. -/
theorem moments_eq_ok_iff {M : Tridiagonal ℝ n} (dom : RowDominant M.matrix)
    {bends u : Vector ℝ n} :
    Curve.moments M bends = .ok u ↔ M.matrix *ᵥ u.get = bends.get := by
  obtain ⟨v, hv, hMv⟩ := exists_moments dom bends
  rw [hv, Except.ok.injEq]
  constructor
  · rintro rfl
    exact hMv
  · intro hu
    have hsame : v.get = u.get :=
      Matrix.mulVec_injective_of_det_ne_zero dom.det_ne_zero (hMv.trans hu.symm)
    exact Vector.ext fun i hi => congrFun hsame ⟨i, hi⟩

/-- Between two dominated ends the diagonal dominates. -/
theorem rowDominant_open {p : Vector (Point ℝ) (m + 2)} (asc : Ascending p)
    {first last : Row ℝ}
    (hfirst : |first.left| + |first.right| < |first.diag|)
    (hlast : |last.left| + |last.right| < |last.diag|) :
    RowDominant (openMatrix p first last).matrix := by
  have hrows : DominatedRows (atPoint first last fun k : Fin m =>
      innerRow ((widths p).get k.castSucc) ((widths p).get k.succ)) :=
    atPoint_forall
      (P := fun row : Row ℝ => |row.left| + |row.right| < |row.diag|)
      hfirst hlast fun k =>
        innerRow_dominated (asc.widths_pos _) (asc.widths_pos _)
  exact hrows.rowDominant

/-- **BETWEEN TWO ENDS** the equations say that the slopes agree at the points
    between, whatever equations the ends have. -/
theorem open_mulVec_iff {p : Vector (Point ℝ) (m + 2)} (asc : Ascending p)
    {first last : Row ℝ} {d₀ d₁ : ℝ} {u : Vector ℝ (m + 2)} :
    (openMatrix p first last).matrix *ᵥ u.get = (openBends p d₀ d₁).get
      ↔ Joined p u
        ∧ first.diag * u.get 0 + first.right * u.get 1 = d₀
        ∧ last.left * u.get (Fin.last m).castSucc
          + last.diag * u.get (Fin.last _) = d₁ := by
  have hget (i : Fin (m + 2)) : (openBends p d₀ d₁).get i
      = atPoint d₀ d₁ (fun k : Fin m =>
          bend ((widths p).get k.castSucc) ((widths p).get k.succ)
            ((secants p).get k.castSucc) ((secants p).get k.succ)) i :=
    Vector.get_ofFn _ i
  have hfirst : ((openMatrix p first last).matrix *ᵥ u.get) 0
      = first.diag * u.get 0 + first.right * u.get 1 := by
    rw [matrix_eq_bandMatrix (Or.inl rfl), openMatrix, ofRows_mulVec_first,
      atPoint_first]
  have hlast : ((openMatrix p first last).matrix *ᵥ u.get) (Fin.last _)
      = last.left * u.get (Fin.last m).castSucc
        + last.diag * u.get (Fin.last _) := by
    rw [matrix_eq_bandMatrix (Or.inl rfl), openMatrix, ofRows_mulVec_last,
      atPoint_last]
  have hinner (k : Fin m) :
      ((openMatrix p first last).matrix *ᵥ u.get) k.succ.castSucc
          = (openBends p d₀ d₁).get k.succ.castSucc
        ↔ endSlope (widths p) (secants p) u k.castSucc
          = startSlope (widths p) (secants p) u k.succ := by
    rw [matrix_eq_bandMatrix (Or.inl rfl), openMatrix, ofRows_mulVec_inner,
      hget, atPoint_inner, atPoint_inner, endSlope_eq, startSlope_eq]
    exact innerRow_holds_iff (asc.widths_pos _) (asc.widths_pos _)
  constructor
  · intro hrows
    refine ⟨fun k j hkj => ?_, ?_, ?_⟩
    · obtain ⟨k, rfl⟩ : ∃ i : Fin m, k = i.castSucc :=
        ⟨⟨k.val, by omega⟩, rfl⟩
      obtain rfl : k.succ = j := Fin.ext hkj
      exact (hinner k).mp (congrFun hrows _)
    · rw [← hfirst, hrows, hget, atPoint_first]
    · rw [← hlast, hrows, hget, atPoint_last]
  · rintro ⟨joined, h₀, h₁⟩
    refine funext (forall_points ?_ ?_ fun k => ?_)
    · rw [hfirst, h₀, hget, atPoint_first]
    · rw [hlast, h₁, hget, atPoint_last]
    · exact (hinner k).mpr (joined k.castSucc k.succ rfl)

theorem rowDominant_natural {p : Vector (Point ℝ) (m + 2)}
    (asc : Ascending p) : RowDominant (naturalMatrix p).matrix := by
  have hdom : |(0 : ℝ)| + |(0 : ℝ)| < |(2 : ℝ)| := by norm_num
  exact rowDominant_open asc hdom hdom

theorem rowDominant_full {p : Vector (Point ℝ) (m + 2)}
    (asc : Ascending p) : RowDominant (fullMatrix p).matrix := by
  have hfirst : |(0 : ℝ)| + |(1 : ℝ)| < |(2 : ℝ)| := by norm_num
  have hlast : |(1 : ℝ)| + |(0 : ℝ)| < |(2 : ℝ)| := by norm_num
  exact rowDominant_open asc hfirst hlast

/-- **NATURAL MOMENTS** are those with joined slopes that are zero at both
    ends. -/
theorem natural_moments_iff {p : Vector (Point ℝ) (m + 2)}
    (asc : Ascending p) {u : Vector ℝ (m + 2)} :
    Curve.moments (naturalMatrix p) (naturalBends p) = .ok u
      ↔ Joined p u ∧ u.get 0 = 0 ∧ u.get (Fin.last _) = 0 := by
  have hfirst : (2 : ℝ) * u.get 0 + 0 * u.get 1 = 0 ↔ u.get 0 = 0 := by
    constructor <;> intro h <;> linarith
  have hlast : (0 : ℝ) * u.get (Fin.last m).castSucc
      + 2 * u.get (Fin.last _) = 0 ↔ u.get (Fin.last _) = 0 := by
    constructor <;> intro h <;> linarith
  refine (moments_eq_ok_iff (rowDominant_natural asc)).trans
    ((open_mulVec_iff asc).trans ?_)
  exact and_congr_right fun _ => and_congr hfirst hlast

/-- **FULL MOMENTS** are those with joined slopes that ask for the given ones
    at both ends. -/
theorem full_moments_iff {p : Vector (Point ℝ) (m + 2)} (asc : Ascending p)
    {m₀ m₁ : ℝ} {u : Vector ℝ (m + 2)} :
    Curve.moments (fullMatrix p) (fullBends p m₀ m₁) = .ok u
      ↔ Joined p u ∧ startSlope (widths p) (secants p) u 0 = m₀
        ∧ endSlope (widths p) (secants p) u (Fin.last m) = m₁ := by
  refine (moments_eq_ok_iff (rowDominant_full asc)).trans
    ((open_mulVec_iff asc).trans ?_)
  rw [startSlope_eq, endSlope_eq]
  exact and_congr_right fun _ =>
    and_congr (endBend_first_iff (asc.widths_pos _))
      (endBend_last_iff (asc.widths_pos _))

/-- The natural curve has moments, and they are zero at both ends. -/
theorem exists_natural_moments {p : Vector (Point ℝ) (m + 2)}
    (asc : Ascending p) :
    ∃ u, Curve.moments (naturalMatrix p) (naturalBends p) = .ok u
      ∧ Joined p u ∧ u.get 0 = 0 ∧ u.get (Fin.last _) = 0 := by
  obtain ⟨u, hu, -⟩ := exists_moments (rowDominant_natural asc) (naturalBends p)
  exact ⟨u, hu, (natural_moments_iff asc).mp hu⟩

/-- The full curve has moments, and they ask for the given slopes at both
    ends. -/
theorem exists_full_moments {p : Vector (Point ℝ) (m + 2)}
    (asc : Ascending p) (m₀ m₁ : ℝ) :
    ∃ u, Curve.moments (fullMatrix p) (fullBends p m₀ m₁) = .ok u
      ∧ Joined p u ∧ startSlope (widths p) (secants p) u 0 = m₀
      ∧ endSlope (widths p) (secants p) u (Fin.last m) = m₁ := by
  obtain ⟨u, hu, -⟩ :=
    exists_moments (rowDominant_full asc) (fullBends p m₀ m₁)
  exact ⟨u, hu, (full_moments_iff asc).mp hu⟩

/-! ## Points in a circle -/

theorem nextSegment_eq (k : Fin (m + 2)) : nextSegment k = k + 1 := by
  rw [nextSegment]
  split_ifs with h
  · exact Fin.ext (Fin.val_add_one_of_lt (Fin.lt_last_iff_ne_last.mpr fun e =>
      h.ne (congrArg Fin.val e))).symm
  · obtain rfl : k = Fin.last _ := Fin.ext (by show k.val = m + 1; omega)
    exact (Fin.last_add_one _).symm

/-- The moment behind a segment. -/
theorem get_closed_succ (u : Vector ℝ (m + 2)) (k : Fin (m + 2)) :
    (closed u).get k.succ = u.get k := by
  rw [closed, Vector.get_ofFn]
  exact dif_neg (Nat.succ_ne_zero k.val)

/-- The moment before a segment is that behind the one before it in the
    circle. -/
theorem get_closed_castSucc (u : Vector ℝ (m + 2)) {k j : Fin (m + 2)}
    (hj : k + 1 = j) : (closed u).get j.castSucc = u.get k := by
  obtain rfl : k = j - 1 := eq_sub_of_add_eq hj
  rw [closed, Vector.get_ofFn, get_sub_one]
  by_cases h : j = 0
  · rw [if_pos h, h]
    rfl
  · have hval : ¬ j.val = 0 := Fin.val_eq_zero_iff.not.mpr h
    rw [if_neg h, entryOrZero_of_lt u (by omega)]
    exact dif_neg hval

/-- The moments at both ends of the circle are the same. -/
theorem get_closed_last (u : Vector ℝ (m + 2)) :
    (closed u).get (Fin.last _) = (closed u).get 0 :=
  (get_closed_succ u (Fin.last _)).trans
    (get_closed_castSucc u (Fin.last_add_one _)).symm

theorem rowDominant_periodic {p : Vector (Point ℝ) (m + 3)}
    (asc : Ascending p) : RowDominant (periodicMatrix p).matrix := by
  have hrows : DominatedRows fun k : Fin (m + 2) =>
      innerRow ((widths p).get k) ((widths p).get (nextSegment k)) :=
    fun k => innerRow_dominated (asc.widths_pos _) (asc.widths_pos _)
  exact hrows.rowDominant_cyclic

/-- **IN A CIRCLE** there is one equation for each segment: its slope at the
    end is that of the next one at the beginning. -/
theorem circle_mulVec_iff {p : Vector (Point ℝ) (m + 3)} (asc : Ascending p)
    {u : Vector ℝ (m + 2)} :
    (periodicMatrix p).matrix *ᵥ u.get = (periodicBends p).get
      ↔ ∀ k : Fin (m + 2), endSlope (widths p) (secants p) (closed u) k
        = startSlope (widths p) (secants p) (closed u) (k + 1) := by
  refine funext_iff.trans (forall_congr' fun k => ?_)
  have hbend : (periodicBends p).get k
      = bend ((widths p).get k) ((widths p).get (k + 1))
        ((secants p).get k) ((secants p).get (k + 1)) := by
    rw [← nextSegment_eq]
    exact Vector.get_ofFn _ k
  rw [hbend, periodicMatrix, ofCyclicRows_mulVec, nextSegment_eq, endSlope_eq,
    startSlope_eq, get_closed_castSucc u (sub_add_cancel k 1),
    get_closed_succ, get_closed_castSucc u rfl, get_closed_succ]
  exact innerRow_holds_iff (asc.widths_pos _) (asc.widths_pos _)

/-- **PERIODIC MOMENTS** are those with joined slopes, also where the last
    segment meets the first one. -/
theorem periodic_moments_iff {p : Vector (Point ℝ) (m + 3)}
    (asc : Ascending p) {u : Vector ℝ (m + 2)} :
    Curve.moments (periodicMatrix p) (periodicBends p) = .ok u
      ↔ Joined p (closed u)
        ∧ endSlope (widths p) (secants p) (closed u) (Fin.last _)
          = startSlope (widths p) (secants p) (closed u) 0 := by
  refine (moments_eq_ok_iff (rowDominant_periodic asc)).trans
    ((circle_mulVec_iff asc).trans ⟨fun meet => ⟨?_, ?_⟩, ?_⟩)
  · intro k j hkj
    obtain rfl : k + 1 = j := by
      refine Fin.ext ?_
      rw [Fin.val_add_one_of_lt
        (Fin.lt_def.mpr (by show k.val < m + 1; omega))]
      exact hkj
    exact meet k
  · exact (meet (Fin.last _)).trans (by rw [Fin.last_add_one])
  · rintro ⟨joined, seam⟩ k
    cases k using Fin.lastCases with
    | last =>
        rw [Fin.last_add_one]
        exact seam
    | cast k =>
        refine joined _ _ ?_
        rw [Fin.val_add_one_of_lt (Fin.castSucc_lt_last k)]

/-- The periodic curve has moments. -/
theorem exists_circle_moments {p : Vector (Point ℝ) (m + 3)}
    (asc : Ascending p) :
    ∃ u, Curve.moments (periodicMatrix p) (periodicBends p) = .ok u
      ∧ Joined p (closed u)
      ∧ endSlope (widths p) (secants p) (closed u) (Fin.last _)
        = startSlope (widths p) (secants p) (closed u) 0 := by
  obtain ⟨u, hu, -⟩ :=
    exists_moments (rowDominant_periodic asc) (periodicBends p)
  exact ⟨u, hu, (periodic_moments_iff asc).mp hu⟩

end PiecewiseCubic.Moments
