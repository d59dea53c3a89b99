import PiecewiseCubic.Proofs.Curve.Lookup
import PiecewiseCubic.Proofs.Curve.Moments

/-! # Fitted curves

    A fit arranges its points and hands them to the family.  If the family
    finds slopes, the curve goes through the arranged points with these
    slopes, and it is ascending if the points are. -/

namespace PiecewiseCubic.Curve

section Generic

variable {α : Type} [Scalar α] {m : ℕ}

/-- The points that a curve goes through. -/
def points (c : Curve α) : Vector (Point α) (c.inner + 2) :=
  c.knots.map fun k => ⟨k.x, k.y⟩

omit [Scalar α] in
theorem get_ofSlopes (family : Family) (p : Vector (Point α) (m + 2))
    (s : Vector α (m + 2)) (i : Fin (m + 2)) :
    (ofSlopes family p s).knots.get i
      = ⟨(p.get i).x, (p.get i).y, s.get i⟩ :=
  Vector.get_ofFn _ i

omit [Scalar α] in
theorem segment_ofSlopes (family : Family) (p : Vector (Point α) (m + 2))
    (s : Vector α (m + 2)) (i : Fin (m + 1)) :
    (ofSlopes family p s).segment i
      = { left := ⟨(p.get i.castSucc).x, (p.get i.castSucc).y,
            s.get i.castSucc⟩
          right := ⟨(p.get i.succ).x, (p.get i.succ).y, s.get i.succ⟩ } :=
  congrArg₂ Segment.mk (get_ofSlopes family p s i.castSucc)
    (get_ofSlopes family p s i.succ)

omit [Scalar α] in
theorem points_ofSlopes (family : Family) (p : Vector (Point α) (m + 2))
    (s : Vector α (m + 2)) : (ofSlopes family p s).points = p := by
  refine Vector.ext fun i hi => (Vector.getElem_map _ hi).trans ?_
  exact congrArg (fun k : Knot α => (⟨k.x, k.y⟩ : Point α))
    (get_ofSlopes family p s ⟨i, hi⟩)

omit [Scalar α] in
theorem head?_points (c : Curve α) :
    c.points.toList.head?.map Point.x = some c.xMin := by
  rw [List.head?_eq_getElem?, List.getElem?_eq_getElem (by simp)]
  simp [points, xMin, firstKnot]

omit [Scalar α] in
theorem getLast?_points (c : Curve α) :
    c.points.toList.getLast?.map Point.x = some c.xMax := by
  rw [List.getLast?_eq_getElem?, List.getElem?_eq_getElem (by simp)]
  simp [points, xMax, lastKnot]

theorem result_through {b : Boundary α} {p : Vector (Point α) (m + 2)}
    {s : Vector α (m + 2)} (hs : slopes b p = .ok s) :
    (through b p).result = .ok (ofSlopes b.family p s) := by
  rw [through, hs]

/-- Where the family finds slopes, the fit is the curve through the arranged
    points with these slopes. -/
theorem fit_of_slopes {b : Boundary α} {sort : Bool} {points : List (Point α)}
    {p : Vector (Point α) (m + 2)} {s : Vector α (m + 2)}
    (hfit : fit b sort points = through b p)
    (hp : p.toList = arrange sort points) (hs : slopes b p = .ok s) :
    (fit b sort points).result = .ok (ofSlopes b.family p s)
      ∧ (ofSlopes b.family p s).points.toList = arrange sort points := by
  constructor
  · rw [hfit]
    exact result_through hs
  · rw [points_ofSlopes]
    exact hp

/-- A list that begins behind its last point is turned around. -/
theorem arrange_false_cons (p : Point α) (rest : List (Point α)) :
    arrange false (p :: rest)
      = if ((p :: rest).getLast (List.cons_ne_nil p rest)).x < p.x then
          (p :: rest).reverse
        else p :: rest := rfl

/-- **POINTS ARE ARRANGED** by their positions alone: what keeps the order of
    the positions may be done before or behind. -/
theorem arrange_map {β : Type} [Scalar β] (f : Point α → Point β)
    (hbehind : ∀ p q, Scalar.notBehind (f p).x (f q).x
      = Scalar.notBehind p.x q.x)
    (hlt : ∀ p q, (f p).x < (f q).x ↔ p.x < q.x) (sort : Bool)
    (points : List (Point α)) :
    arrange sort (points.map f) = (arrange sort points).map f := by
  cases sort with
  | true =>
      refine (List.map_mergeSort fun p _ q _ => ?_).symm
      exact (hbehind p q).symm
  | false =>
      cases points with
      | nil => rfl
      | cons p rest =>
          have hne : (p :: rest).map f ≠ [] := List.cons_ne_nil _ _
          have hlast : (f p :: rest.map f).getLast hne
              = f ((p :: rest).getLast (List.cons_ne_nil p rest)) :=
            List.getLast_map hne
          rw [List.map_cons, arrange_false_cons, arrange_false_cons, hlast,
            apply_ite (List.map f), List.map_reverse]
          exact if_congr (hlt _ p) rfl rfl

omit [Scalar α] in
/-- Knots of changed points and slopes are changed knots. -/
theorem ofSlopes_map {β : Type} {f : Point α → Point β} {g : α → β}
    {k : Knot α → Knot β}
    (hk : ∀ (q : Point α) slope, k ⟨q.x, q.y, slope⟩
      = ⟨(f q).x, (f q).y, g slope⟩)
    (family : Family) (p : Vector (Point α) (m + 2)) (s : Vector α (m + 2)) :
    ofSlopes family (p.map f) (s.map g)
      = ⟨family, m, (ofSlopes family p s).knots.map k⟩ := by
  refine congrArg (Curve.mk family m) (Eq.trans ?_ Vector.map_ofFn.symm)
  refine congrArg Vector.ofFn (funext fun i => ?_)
  rw [Vector.get_map, Vector.get_map]
  exact (hk _ _).symm

/-- Arranged points are handed to the family. -/
theorem fit_eq_through {b : Boundary α} {sort : Bool}
    {points : List (Point α)} {p : Vector (Point α) (m + 2)}
    (hp : p.toList = arrange sort points) :
    fit b sort points = through b p := by
  obtain ⟨⟨list⟩, hlist⟩ := p
  rw [fit, ← hp]
  match list, hlist with
  | p :: q :: rest, hlist =>
      obtain rfl : rest.length = m := by simpa using hlist
      rfl

/-- Two points or more are handed to the family as arranged. -/
theorem exists_fit_eq_through (sort : Bool) {points : List (Point α)}
    (two : 2 ≤ points.length) :
    ∃ (m : ℕ) (p : Vector (Point α) (m + 2)), points.length = m + 2
      ∧ p.toList = arrange sort points
      ∧ ∀ b, fit b sort points = through b p := by
  obtain ⟨m, hm⟩ : ∃ m, points.length = m + 2 :=
    ⟨points.length - 2, by omega⟩
  have hsize : (arrange sort points).toArray.size = m + 2 :=
    (arrange_perm sort points).length_eq.trans hm
  exact ⟨m, ⟨(arrange sort points).toArray, hsize⟩, hm, rfl,
    fun b => fit_eq_through rfl⟩

end Generic

/-- Once arranged, each point is before the next one. -/
def InOrder (sort : Bool) (points : List (Point ℝ)) : Prop :=
  (arrange sort points).Pairwise fun p q => p.x < q.x

/-- Points that ascend as they are given stay where they are. -/
theorem arrange_of_ascending {α : Type} [Scalar α] [LawfulScalar α]
    {points : List (Point α)}
    (asc : points.Pairwise fun p q => p.x < q.x) :
    arrange false points = points := by
  match points, asc with
  | [], _ => rfl
  | [p], _ => exact if_neg (LawfulScalar.lt_irrefl p.x)
  | p :: q :: rest, asc =>
      have hlast := (List.pairwise_cons.mp asc).1 _
        (List.getLast_mem (List.cons_ne_nil q rest))
      exact if_neg (LawfulScalar.not_lt_of_lt hlast)

/-- Sorting leaves them there, too. -/
theorem arrange_eq_self {α : Type} [Scalar α] [LawfulScalar α] (sort : Bool)
    {points : List (Point α)}
    (asc : points.Pairwise fun p q => p.x < q.x) :
    arrange sort points = points := by
  cases sort with
  | true =>
      exact List.mergeSort_of_pairwise (asc.imp LawfulScalar.notBehind_of_lt)
  | false => exact arrange_of_ascending asc

/-- Points that ascend as they are given are in order. -/
theorem InOrder.of_ascending (sort : Bool) {points : List (Point ℝ)}
    (asc : points.Pairwise fun p q => p.x < q.x) : InOrder sort points := by
  rw [InOrder, arrange_eq_self sort asc]
  exact asc

/-- **POINTS IN ORDER** are handed to the family, ascending. -/
theorem InOrder.exists_through {sort : Bool} {points : List (Point ℝ)}
    (order : InOrder sort points) (two : 2 ≤ points.length) :
    ∃ (m : ℕ) (p : Vector (Point ℝ) (m + 2)), points.length = m + 2
      ∧ p.toList = arrange sort points ∧ Moments.Ascending p
      ∧ ∀ b, fit b sort points = through b p := by
  obtain ⟨m, p, hlength, hp, hfit⟩ := exists_fit_eq_through sort two
  rw [InOrder, ← hp] at order
  exact ⟨m, p, hlength, hp, fun i j hij => rel_get_of_pairwise order hij,
    hfit⟩

section OfSlopes

variable {m : ℕ} {p : Vector (Point ℝ) (m + 2)}

/-- **EACH FAMILY** finds slopes for ascending points, the periodic one for
    three points at least. -/
theorem exists_slopes (asc : Moments.Ascending p) (b : Boundary ℝ)
    (three : b.family = .periodic → 3 ≤ m + 2) :
    ∃ s, slopes b p = .ok s := by
  cases b with
  | full first last =>
      obtain ⟨u, hu, -⟩ := Moments.exists_full_moments asc first last
      exact ⟨_, congrArg (Except.map (Moments.slopes p)) hu⟩
  | natural =>
      obtain ⟨u, hu, -⟩ := Moments.exists_natural_moments asc
      exact ⟨_, congrArg (Except.map (Moments.slopes p)) hu⟩
  | periodic =>
      obtain ⟨m, rfl⟩ : ∃ n, m = n + 1 :=
        ⟨m - 1, by have := three rfl; omega⟩
      obtain ⟨u, hu, -⟩ := Moments.exists_circle_moments asc
      exact ⟨_, congrArg (Except.map _) hu⟩
  | monotonic => exact ⟨_, rfl⟩

theorem ascending_ofSlopes (family : Family) (s : Vector ℝ (m + 2))
    (asc : Moments.Ascending p) : (ofSlopes family p s).Ascending := by
  intro i j hij
  have hi := congrArg Knot.x (get_ofSlopes family p s i)
  have hj := congrArg Knot.x (get_ofSlopes family p s j)
  exact hi.trans_lt ((asc i j hij).trans_eq hj.symm)

theorem width_ofSlopes (family : Family) (s : Vector ℝ (m + 2))
    (i : Fin (m + 1)) :
    ((ofSlopes family p s).segment i).width = (Moments.widths p).get i := by
  rw [segment_ofSlopes, Moments.get_widths]
  rfl

theorem secant_ofSlopes (family : Family) (s : Vector ℝ (m + 2))
    (i : Fin (m + 1)) :
    ((ofSlopes family p s).segment i).secant = (Moments.secants p).get i := by
  rw [Moments.get_secants, ← width_ofSlopes family s, segment_ofSlopes]
  rfl

end OfSlopes

end PiecewiseCubic.Curve
