import PiecewiseCubic.Proofs.Cell
import PiecewiseCubic.Proofs.Curve.Uniqueness
import PiecewiseCubic.Proofs.Session

/-! # Points in another order

    Points may be given in any order if they are to be sorted, and in the two
    monotone ones anyway, as two rows or as a row of pairs.  A command that
    gives them in one of these ways makes what any other one makes, in every
    session: the curve through the points in ascending order. -/

namespace PiecewiseCubic

namespace Session

open Scalar

variable {α : Type} [Scalar α]

/-! ## Points as rows and as pairs -/

theorem fitArrays_ofNumbers (points : List (Point α))
    (options : FitOptions α) :
    fitArrays (.ofNumbers (points.map Point.x))
      (.ofNumbers (points.map Point.y)) options = fit options points := by
  have hpoints : List.zipWith Point.mk (points.map Point.x)
      (points.map Point.y) = points := by
    rw [List.zipWith_map, List.zipWith_self]
    exact List.map_id points
  have hlength : (points.map Point.x).length = (points.map Point.y).length := by
    rw [List.length_map, List.length_map]
  rw [fitArrays, Cell.entries_ofNumbers, Cell.entries_ofNumbers]
  show (if _ = _ then fit options (List.zipWith _ _ _) else _) = _
  rw [if_pos hlength, hpoints]

omit [Scalar α] in
theorem pointsOf_flatMap (points : List (Point α)) :
    pointsOf (points.flatMap fun p => [p.x, p.y]) = points := by
  induction points with
  | nil => rfl
  | cons p points ih => exact congrArg (p :: ·) ih

theorem fitPoints_ofPoints {points : List (Point α)} (two : 2 ≤ points.length)
    (options : FitOptions α) :
    fitPoints (.ofPoints points) options = fit options points := by
  cases points with
  | nil => exact absurd two (by simp)
  | cons p points =>
      rw [fitPoints, Cell.pointTable_ofPoints]
      show (if (pointsOf _).length ≤ 1 then _ else fit options (pointsOf _)) = _
      rw [pointsOf_flatMap, if_neg (not_le.mpr two)]

/-- A fit for a caller goes by the arranged points alone. -/
theorem fit_congr (family : Literal) (first last : Cell α)
    {sort sort' : Literal} {points points' : List (Point α)}
    (h : Curve.arrange sort.isTruthy points
      = Curve.arrange sort'.isTruthy points') :
    fit ⟨family, first, last, sort⟩ points
      = fit ⟨family, first, last, sort'⟩ points' := by
  have hlength : points.length = points'.length := by
    rw [← (Curve.arrange_perm sort.isTruthy points).length_eq, h,
      (Curve.arrange_perm sort'.isTruthy points').length_eq]
  rw [fit, fit, hlength]
  simp only [Curve.fit_congr _ h]
  rfl

/-- An order of points that a fit undoes: any if it sorts, ascending or
    descending if it does not. -/
def Undoes (sort : Literal) (points : List (Point α)) : Prop :=
  sort.isTruthy = true ∨ Curve.Ascends points ∨ Curve.Ascends points.reverse

/-- The commands that give points, in an order that is undone, with a family
    and slopes. -/
inductive Gives (points : List (Point α)) (family : Literal)
    (first last : Cell α) : Command α → Prop where
  | create {given : List (Point α)} {sort : Literal} (perm : given.Perm points)
      (undone : Undoes sort given) :
      Gives points family first last
        (.create (.ofNumbers (given.map Point.x))
          (.ofNumbers (given.map Point.y)) ⟨family, first, last, sort⟩)
  | setArrays {given : List (Point α)} {sort : Literal}
      (perm : given.Perm points) (undone : Undoes sort given) :
      Gives points family first last
        (.setArrays (.ofNumbers (given.map Point.x))
          (.ofNumbers (given.map Point.y)) ⟨family, first, last, sort⟩)
  | setPoints {given : List (Point α)} {sort : Literal}
      (perm : given.Perm points) (undone : Undoes sort given) :
      Gives points family first last
        (.setPoints (.ofPoints given) ⟨family, first, last, sort⟩)

section Given

variable [LawfulScalar α] {points : List (Point α)} {family : Literal}
  {first last : Cell α} {command : Command α}

/-- **WHAT IS MADE OF GIVEN POINTS** is what is made by sorting them. -/
theorem Gives.make? (two : 2 ≤ points.length)
    (distinct : Curve.Distinct points)
    (h : Gives points family first last command) :
    make? command = some (fit ⟨family, first, last, .bool true⟩ points) := by
  have undo {given : List (Point α)} {sort : Literal}
      (perm : given.Perm points) (undone : Undoes sort given) :
      fit ⟨family, first, last, sort⟩ given
        = fit ⟨family, first, last, .bool true⟩ points :=
    fit_congr family first last (distinct.arrange_eq perm undone)
  cases h with
  | create perm undone =>
      -- a row is not blank, so there are points to be read
      rw [← undo perm undone, ← fitArrays_ofNumbers]
      rfl
  | setArrays perm undone =>
      rw [← undo perm undone, ← fitArrays_ofNumbers]
      rfl
  | setPoints perm undone =>
      rw [← undo perm undone, ← fitPoints_ofPoints (perm.length_eq ▸ two)]
      rfl

omit [LawfulScalar α] in
/-- Commands that make the same are answered alike in every session. -/
theorem step_eq_of_make? {command' : Command α}
    {outcome : Except (Fault α) (Made α)} (h : make? command = some outcome)
    (h' : make? command' = some outcome) (state : Option (Curve α)) :
    step state command = step state command' := by
  rw [step, step, h, h']
  cases outcome with
  | error fault => rfl
  | ok made => rfl

/-- Where points are answered by a curve, this is fitted to the sorted points
    with the boundary that was asked for, and the session holds it. -/
theorem Gives.exists_fit (two : 2 ≤ points.length)
    (distinct : Curve.Distinct points)
    (h : Gives points family first last command) {state : Option (Curve α)}
    {reply : Reply α} (hreply : (step state command).2 = .ok reply) :
    ∃ (cells : Boundary (Cell α)) (b : Boundary α) (c : Curve α)
        (notices : List (Notice α)),
      asked ⟨family, first, last, .bool true⟩ = .ok cells
        ∧ boundary cells = .ok b
        ∧ (Curve.fit b true points).result = .ok c
        ∧ reply = .made (some c) notices ∧ (step state command).1 = some c := by
  rw [step, h.make? two distinct] at hreply ⊢
  cases hfit : fit ⟨family, first, last, .bool true⟩ points with
  | error fault =>
      rw [hfit] at hreply
      exact absurd hreply (by simp)
  | ok made =>
      rw [hfit] at hreply
      obtain ⟨cells, b, c, hcells, hb, hresult, hc⟩ := exists_of_fit hfit
      refine ⟨cells, b, c, made.notices, hcells, hb, hresult, ?_, hc⟩
      rw [← hc]
      exact (Except.ok.inj hreply).symm

end Given

/-! ## The slopes at the ends -/

theorem ofLiteral_eq_full {β : Type} {given : Literal} {first last : Option β}
    {m₀ m₁ : β} (h : Boundary.ofLiteral given first last = .ok (.full m₀ m₁)) :
    first = some m₀ ∧ last = some m₁ := by
  have of_family {f : Family}
      (h : Boundary.ofFamily f first last = .ok (.full m₀ m₁)) :
      first = some m₀ ∧ last = some m₁ := by
    unfold Boundary.ofFamily at h
    split at h
    case h_1 =>
      obtain ⟨rfl, rfl⟩ := Boundary.full.inj (Except.ok.inj h)
      exact ⟨rfl, rfl⟩
    all_goals exact absurd h (by simp)
  unfold Boundary.ofLiteral at h
  split at h
  · exact of_family h
  · split at h
    · exact absurd h (by simp)
    · exact of_family h

omit [Scalar α] in
theorem eq_of_given? {c d : Cell α} (h : c.given? = some d) : c = d := by
  unfold Cell.given? at h
  split at h
  case h_1 => exact absurd h (by simp)
  case h_2 => exact Option.some.inj h

omit [Scalar α] in
/-- The slopes of a full curve are the numbers that a caller gives. -/
theorem operands_of_full {options : FitOptions α} {cells : Boundary (Cell α)}
    {m₀ m₁ : α} (hcells : asked options = .ok cells)
    (hb : boundary cells = .ok (.full m₀ m₁)) :
    options.first.operand = .ok m₀ ∧ options.last.operand = .ok m₁ := by
  cases cells with
  | natural | periodic | monotonic => exact absurd hb (by simp [boundary])
  | full f l =>
      rw [boundary] at hb
      obtain ⟨m, hf, hb⟩ := bind_ok hb
      obtain ⟨m', hl, hb⟩ := bind_ok hb
      obtain ⟨rfl, rfl⟩ := Boundary.full.inj (Except.ok.inj hb)
      unfold asked at hcells
      split at hcells
      case h_1 => exact absurd hcells (by simp)
      case h_2 b hgiven =>
        rw [Except.ok.inj hcells] at hgiven
        obtain ⟨hfirst, hlast⟩ := ofLiteral_eq_full hgiven
        rw [eq_of_given? hfirst, eq_of_given? hlast]
        exact ⟨hf, hl⟩

/-- In exact arithmetic the slopes of a full curve at its ends are the given
    ones, the first of them at the smallest position. -/
theorem endSlopes_of_fit {points : List (Point ℝ)}
    (distinct : Curve.Distinct points) {m₀ m₁ : ℝ} {c : Curve ℝ}
    (h : (Curve.fit (.full m₀ m₁) true points).result = .ok c) :
    c.firstKnot.slope = m₀ ∧ c.lastKnot.slope = m₁ := by
  obtain ⟨m, p, s, hp, hs, rfl⟩ := Curve.exists_slopes_of_fit h
  have hascends := distinct.ascends_arrange_true
  rw [← hp] at hascends
  have asc : Moments.Ascending p := fun i j hij =>
    Curve.rel_get_of_pairwise hascends hij
  obtain ⟨-, hfirst, hlast⟩ := (Curve.slopes_full_iff .full asc).mp hs
  rw [← hfirst, ← hlast]
  exact ⟨congrArg Knot.slope (Curve.get_ofSlopes .full p s 0),
    congrArg Knot.slope (Curve.get_ofSlopes .full p s (Fin.last _))⟩

/-- **POINTS IN ANY ORDER**: commands that give the same points with different
    positions, each in an order that is undone, are answered alike and leave
    the same session, in every session.  A curve that they make goes through
    the points, with ascending positions, and in exact arithmetic a full curve
    has the first of the given slopes at the smallest position and the last
    one at the greatest. -/
theorem points_in_any_order :
    (∀ {α : Type} [Scalar α] [LawfulScalar α] {points : List (Point α)}
        {family : Literal} {first last : Cell α},
        2 ≤ points.length → Curve.Distinct points →
        ∀ command, Gives points family first last command →
        ∀ state : Option (Curve α),
          (∀ command', Gives points family first last command' →
              step state command' = step state command)
            ∧ ∀ reply, (step state command).2 = .ok reply →
              ∃ c notices, reply = .made (some c) notices
                ∧ (step state command).1 = some c
                ∧ c.Sorted ∧ c.points.toList.Perm points)
      ∧ ∀ {points : List (Point ℝ)} {family : Literal} {first last : Cell ℝ},
        2 ≤ points.length → Curve.Distinct points →
        ∀ command, Gives points family first last command →
        ∀ (state : Option (Curve ℝ)) (c : Curve ℝ) (notices : List (Notice ℝ)),
          (step state command).2 = .ok (.made (some c) notices) →
          c.family = .full →
            first.operand = .ok c.firstKnot.slope
              ∧ last.operand = .ok c.lastKnot.slope := by
  constructor
  · intro α _ _ points family first last two distinct command hgives state
    constructor
    · intro command' hgives'
      exact step_eq_of_make? (hgives'.make? two distinct)
        (hgives.make? two distinct) state
    · intro reply hreply
      obtain ⟨_, b, c, notices, -, -, hfit, hmade, hholds⟩ :=
        hgives.exists_fit two distinct hreply
      have hpoints := (Curve.points_of_fit hfit).2
      refine ⟨c, notices, hmade, hholds, Curve.sorted_of_ascends ?_, ?_⟩
      · rw [hpoints]
        exact distinct.ascends_arrange_true
      · rw [hpoints]
        exact Curve.arrange_perm true points
  · intro points family first last two distinct command hgives state c notices
      hreply hfull
    obtain ⟨cells, b, c', _, hcells, hb, hfit, hmade, -⟩ :=
      hgives.exists_fit two distinct hreply
    obtain ⟨hc, -⟩ := Reply.made.inj hmade
    obtain rfl := Option.some.inj hc
    rw [(Curve.points_of_fit hfit).1] at hfull
    cases b with
    | natural | periodic | monotonic =>
        exact absurd hfull (by simp [Boundary.family])
    | full m₀ m₁ =>
        obtain ⟨hfirst, hlast⟩ := endSlopes_of_fit distinct hfit
        rw [hfirst, hlast]
        exact operands_of_full hcells hb

/-- Three points once as two unsorted rows and once as pairs that descend. -/
theorem points_in_any_order_three :
    ∃ (points : List (Point Float)) (first last : Cell Float)
        (rows pairs : Command Float) (c : Curve Float)
        (notices : List (Notice Float)),
      points = [⟨0, 1⟩, ⟨1, 4⟩, ⟨3, 2⟩] ∧ Curve.Distinct points
        ∧ rows = .setArrays (.ofNumbers [1, 3, 0]) (.ofNumbers [4, 2, 1])
          ⟨.text "full", first, last, .bool true⟩
        ∧ pairs = .setPoints (.ofPoints points.reverse)
          ⟨.text "full", first, last, .null⟩
        ∧ step none rows = (some c, .ok (.made (some c) notices))
        ∧ step none pairs = (some c, .ok (.made (some c) notices))
        ∧ c.Sorted ∧ c.points.toList.Perm points := by
  obtain ⟨points, hpoints⟩ : ∃ points : List (Point Float),
      points = [⟨0, 1⟩, ⟨1, 4⟩, ⟨3, 2⟩] := ⟨_, rfl⟩
  have two : 2 ≤ points.length := by
    rw [hpoints]
    decide
  have distinct : Curve.Distinct points := by
    rw [hpoints]
    exact ⟨by decide +kernel, by decide +kernel⟩
  have hrows : Gives points (.text "full") (.number 2) (.number (-1))
      (.setArrays (.ofNumbers [1, 3, 0]) (.ofNumbers [4, 2, 1])
        ⟨.text "full", .number 2, .number (-1), .bool true⟩) := by
    have perm : [(⟨1, 4⟩ : Point Float), ⟨3, 2⟩, ⟨0, 1⟩].Perm points := by
      rw [hpoints]
      exact (List.perm_append_comm :
        ([⟨1, 4⟩, ⟨3, 2⟩] ++ [⟨0, 1⟩] : List (Point Float)).Perm _)
    exact .setArrays perm (Or.inl rfl)
  have hpairs : Gives points (.text "full") (.number 2) (.number (-1))
      (.setPoints (.ofPoints points.reverse)
        ⟨.text "full", .number 2, .number (-1), .null⟩) := by
    refine .setPoints (List.reverse_perm points) (Or.inr (Or.inr ?_))
    rw [List.reverse_reverse, hpoints, Curve.Ascends]
    decide +kernel
  have hok : (step none (.setPoints (.ofPoints points.reverse)
      ⟨.text "full", .number (2 : Float), .number (-1), .null⟩)).2.toBool
        = true := by
    rw [hpoints]
    decide +kernel
  obtain ⟨hsame, hmade⟩ := points_in_any_order.1 two distinct _ hpairs none
  cases hstep : (step none (.setPoints (.ofPoints points.reverse)
      ⟨.text "full", .number (2 : Float), .number (-1), .null⟩)).2 with
  | error fault =>
      rw [hstep] at hok
      exact absurd hok (by simp [Except.toBool])
  | ok reply =>
      obtain ⟨c, notices, rfl, hholds, hsorted, hperm⟩ := hmade reply hstep
      have hanswer : step none (.setPoints (.ofPoints points.reverse)
          ⟨.text "full", .number (2 : Float), .number (-1), .null⟩)
            = (some c, .ok (.made (some c) notices)) :=
        Prod.ext hholds hstep
      exact ⟨points, .number 2, .number (-1), _, _, c, notices, hpoints,
        distinct, rfl, rfl, (hsame _ hrows).trans hanswer, hanswer, hsorted,
        hperm⟩

end Session

end PiecewiseCubic
