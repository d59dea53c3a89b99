import PiecewiseCubic.Proofs.Curve.Fit

/-! # Arranged points

    However points are arranged, the first of them is not behind the last one:
    sorting leaves no point behind a later one, and a list that descends from
    its first point to its last one is turned around.  Points with different
    positions have only one ascending order, so it is found from every order
    by sorting, and from the two monotone ones without. -/

namespace PiecewiseCubic.Curve

open Scalar

section Fitted

variable {α : Type} [Scalar α] {m : ℕ}

/-- Each point is before all points that follow it. -/
def Ascends (points : List (Point α)) : Prop :=
  points.Pairwise fun p q => p.x < q.x

/-- No two points have one position. -/
structure Distinct (points : List (Point α)) : Prop where
  defined : ∀ p ∈ points, Defined p.x
  differ : points.Pairwise fun p q => (p.x == q.x) = false

/-- A fit goes by the arranged points alone. -/
theorem fit_congr (b : Boundary α) {sort sort' : Bool}
    {points points' : List (Point α)}
    (h : arrange sort points = arrange sort' points') :
    fit b sort points = fit b sort' points' := by
  rw [fit, fit, h]

/-- A periodic curve needs a third point. -/
theorem one_le_of_slopes {b : Boundary α} {p : Vector (Point α) (m + 2)}
    {s : Vector α (m + 2)} (hs : slopes b p = .ok s)
    (hb : b.family = .periodic) : 1 ≤ m := by
  cases b with
  | full | natural | monotonic => exact absurd hb (by simp [Boundary.family])
  | periodic =>
      cases m with
      | zero => exact absurd hs (by simp [slopes])
      | succ m => exact Nat.succ_le_succ (Nat.zero_le m)

/-- **WHAT A FIT MAKES**: the curve of the family through the arranged points,
    with the slopes that the family finds. -/
theorem exists_slopes_of_fit {b : Boundary α} {sort : Bool}
    {points : List (Point α)} {c : Curve α}
    (h : (fit b sort points).result = .ok c) :
    ∃ (m : ℕ) (p : Vector (Point α) (m + 2)) (s : Vector α (m + 2)),
      p.toList = arrange sort points ∧ slopes b p = .ok s
        ∧ c = ofSlopes b.family p s := by
  by_cases two : 2 ≤ points.length
  · obtain ⟨m, p, -, hp, hfit⟩ := exists_fit_eq_through sort two
    rw [hfit, through] at h
    cases hs : slopes b p with
    | error fault =>
        rw [hs] at h
        exact absurd h (by simp)
    | ok s =>
        rw [hs] at h
        exact ⟨m, p, s, hp, hs, (Except.ok.inj h).symm⟩
  · rw [fit] at h
    split at h
    case h_1 p q rest harrange =>
      have hlength := (arrange_perm sort points).length_eq
      rw [harrange, List.length_cons, List.length_cons] at hlength
      omega
    case h_2 => exact absurd h (by simp)

/-- A fitted curve goes through the arranged points. -/
theorem points_of_fit {b : Boundary α} {sort : Bool} {points : List (Point α)}
    {c : Curve α} (h : (fit b sort points).result = .ok c) :
    c.family = b.family ∧ c.points.toList = arrange sort points := by
  obtain ⟨m, p, s, hp, -, rfl⟩ := exists_slopes_of_fit h
  refine ⟨rfl, ?_⟩
  rw [points_ofSlopes]
  exact hp

/-- A fitted periodic curve has a third knot. -/
theorem one_le_inner_of_fit {b : Boundary α} {sort : Bool}
    {points : List (Point α)} {c : Curve α}
    (h : (fit b sort points).result = .ok c) (hc : c.family = .periodic) :
    1 ≤ c.inner := by
  obtain ⟨m, p, s, -, hs, rfl⟩ := exists_slopes_of_fit h
  exact one_le_of_slopes hs hc

/-- The knots of a curve through ascending points are sorted. -/
theorem sorted_of_ascends {c : Curve α} (asc : Ascends c.points.toList) :
    c.Sorted := by
  rw [Ascends, points, Vector.toList_map, List.pairwise_map] at asc
  exact sorted_of_pairwise asc

end Fitted

section Order

variable {α : Type} [Scalar α] [LawfulScalar α] {points : List (Point α)}

/-- Sorting leaves no point behind a later one. -/
theorem pairwise_arrange_true (points : List (Point α)) :
    (arrange true points).Pairwise fun p q => notBehind p.x q.x = true := by
  refine List.pairwise_mergeSort ?_ ?_ points
  · intro p q r
    exact LawfulScalar.notBehind_trans
  · intro p q
    exact LawfulScalar.notBehind_total p.x q.x

/-- **THE ENDS OF ARRANGED POINTS** are in order, whatever the positions of the
    points are. -/
theorem not_lt_of_arrange {sort : Bool} {p q : Point α}
    (hp : (arrange sort points).head? = some p)
    (hq : (arrange sort points).getLast? = some q) : ¬ q.x < p.x := by
  cases sort with
  | true =>
      obtain ⟨rest, hrest⟩ := List.head?_eq_some_iff.mp hp
      have hpairwise := pairwise_arrange_true points
      rw [hrest, List.pairwise_cons] at hpairwise
      rw [hrest] at hq
      rcases List.mem_cons.mp (List.mem_of_getLast? hq) with rfl | hmem
      · exact LawfulScalar.lt_irrefl q.x
      · exact (LawfulScalar.notBehind_iff.mp (hpairwise.1 q hmem)).1
  | false =>
      cases points with
      | nil => exact absurd hp (by simp [arrange])
      | cons first rest =>
          have hlast := List.getLast?_eq_some_getLast
            (List.cons_ne_nil first rest)
          rw [arrange_false_cons] at hp hq
          split at hp
          case isTrue hlt =>
            rw [List.head?_reverse, hlast] at hp
            rw [if_pos hlt, List.getLast?_reverse] at hq
            rw [← Option.some.inj hp, ← Option.some.inj hq]
            exact LawfulScalar.not_lt_of_lt hlt
          case isFalse hlt =>
            rw [if_neg hlt, hlast] at hq
            rw [← Option.some.inj hp, ← Option.some.inj hq]
            exact hlt

/-- **THE RANGE OF A FITTED CURVE** does not end before it begins, whatever the
    positions of its points are. -/
theorem not_xMax_lt_xMin_of_fit {b : Boundary α} {sort : Bool} {c : Curve α}
    (h : (fit b sort points).result = .ok c) : ¬ c.xMax < c.xMin := by
  have hfirst := head?_points c
  have hlast := getLast?_points c
  rw [(points_of_fit h).2, Option.map_eq_some_iff] at hfirst hlast
  obtain ⟨p, hp, hpx⟩ := hfirst
  obtain ⟨q, hq, hqx⟩ := hlast
  rw [← hpx, ← hqx]
  exact not_lt_of_arrange hp hq

/-! ## Points with different positions -/

variable {given : List (Point α)}

/-- Points that descend as they are given are turned around. -/
theorem arrange_of_descending (desc : Ascends points.reverse) :
    arrange false points = points.reverse := by
  match points, desc with
  | [], _ => rfl
  | [p], _ => exact if_neg (LawfulScalar.lt_irrefl p.x)
  | p :: q :: rest, desc =>
      rw [Ascends, List.pairwise_reverse, List.pairwise_cons] at desc
      have hlast := desc.1 _ (List.getLast_mem (List.cons_ne_nil q rest))
      exact if_pos hlast

/-- There is one ascending order of points at most. -/
theorem Ascends.eq_of_perm (hgiven : Ascends given) (hpoints : Ascends points)
    (h : given.Perm points) : given = points := by
  refine h.eq_of_pairwise ?_ hgiven hpoints
  intro p q _ _ hpq hqp
  exact absurd hqp (LawfulScalar.not_lt_of_lt hpq)

namespace Distinct

theorem of_perm (distinct : Distinct points) (h : given.Perm points) :
    Distinct given := by
  refine ⟨fun p hp => distinct.defined p (h.mem_iff.mp hp), ?_⟩
  refine (h.pairwise_iff ?_).mpr distinct.differ
  intro p q hpq
  rw [LawfulScalar.beq_comm]
  exact hpq

/-- Points with different positions ascend once they are sorted. -/
theorem ascends_arrange_true (distinct : Distinct points) :
    Ascends (arrange true points) := by
  obtain ⟨hdefined, hdiffer⟩ := distinct.of_perm (arrange_perm true points)
  refine ((pairwise_arrange_true points).and hdiffer).imp_of_mem ?_
  intro p q hp hq ⟨hle, hne⟩
  have hlt := LawfulScalar.lt_or_lt_of_beq_eq_false (hdefined p hp)
    (hdefined q hq) hne
  exact hlt.resolve_right (LawfulScalar.notBehind_iff.mp hle).1

/-- **THE ORDER OF THE POINTS** does not matter if they are to be sorted, nor
    if they ascend or descend. -/
theorem arrange_eq (distinct : Distinct points) {sort : Bool}
    (h : given.Perm points)
    (order : sort = true ∨ Ascends given ∨ Ascends given.reverse) :
    arrange sort given = arrange true points := by
  have hperm : (arrange sort given).Perm (arrange true points) :=
    ((arrange_perm sort given).trans h).trans (arrange_perm true points).symm
  refine Ascends.eq_of_perm ?_ distinct.ascends_arrange_true hperm
  cases sort with
  | true => exact (distinct.of_perm h).ascends_arrange_true
  | false =>
      rcases order with hsort | hasc | hdesc
      · exact absurd hsort Bool.false_ne_true
      · rw [arrange_of_ascending hasc]
        exact hasc
      · rw [arrange_of_descending hdesc]
        exact hdesc

end Distinct

end Order

end PiecewiseCubic.Curve
