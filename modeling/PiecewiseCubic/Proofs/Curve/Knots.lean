import PiecewiseCubic.Proofs.Curve.Sampling

/-! # A curve at its knots

    At a knot all weights of Hermite vanish but one: the value of the knot is
    left of the value and the slope of the knot is left of the slope.  This is
    so at both ends of a segment, hence it does not matter that a knot is the
    left end of its segment and only the last one a right end.  Over the reals
    an answer to many positions is the list of the answers to each, so it does
    not matter either how many knots are asked for.  The straight
    continuations set out from the two outer knots with the slopes of
    these. -/

namespace PiecewiseCubic

/-- A row of other entries, one for each, is a row. -/
theorem Tensor.withEntries_ofList_map {β γ : Type} (f : β → γ) (xs : List β) :
    (Tensor.ofList xs).withEntries (xs.map f) = Tensor.ofList (xs.map f) := by
  rw [withEntries, ofList, ofList, List.length_map]

namespace Curve

variable {c : Curve ℝ}

theorem exists_get_of_mem {β : Type} {n : ℕ} {v : Vector β n} {b : β}
    (h : b ∈ v.toList) : ∃ i : Fin n, v.get i = b := by
  obtain ⟨i, hi, rfl⟩ := List.getElem_of_mem h
  exact ⟨⟨i, by simpa using hi⟩, rfl⟩

namespace Ascending

variable (asc : c.Ascending)

include asc

/-- The knots lie in the range. -/
theorem knot_mem (i : Fin (c.inner + 2)) :
    c.xMin ≤ (c.knots.get i).x ∧ (c.knots.get i).x ≤ c.xMax :=
  ⟨asc.le (Nat.zero_le _) i.isLt, asc.le (Nat.le_of_lt_succ i.isLt) (by omega)⟩

/-- **AT A KNOT** a curve has the value and the slope of the knot. -/
theorem continued_knot (i : Fin (c.inner + 2)) :
    c.continued .value (c.knots.get i).x = (c.knots.get i).y
      ∧ c.continued .first (c.knots.get i).x = (c.knots.get i).slope := by
  obtain ⟨hmin, hmax⟩ := asc.knot_mem i
  rw [continued_eq_inside hmin hmax, continued_eq_inside hmin hmax]
  exact asc.inside_knot i

/-- **ASKED AT A KNOT** a curve answers value and slope of the knot. -/
theorem eval_knot (i : Fin (c.inner + 2)) (extrapolate : Bool) :
    c.eval .value extrapolate (c.knots.get i).x = .ok (c.knots.get i).y
      ∧ c.eval .first extrapolate (c.knots.get i).x
        = .ok (c.knots.get i).slope := by
  obtain ⟨hmin, hmax⟩ := asc.knot_mem i
  obtain ⟨hvalue, hslope⟩ := asc.inside_knot i
  rw [eval_eq_inside hmin hmax, eval_eq_inside hmin hmax, hvalue, hslope]
  exact ⟨rfl, rfl⟩

/-- **MANY POSITIONS** that may be asked for are answered one by one. -/
theorem sample_eq_map (order : Order) {extrapolate : Bool}
    {positions : Tensor ℝ}
    (reach : extrapolate = true
      ∨ ∀ x ∈ positions.entries, c.covers x = true) :
    c.sample order extrapolate positions
      = .ok (positions.withEntries
        (positions.entries.map (c.continued order))) := by
  have heach : List.Forall₂ (fun x answer => c.continued order x = answer)
      positions.entries
      (List.zipWith (c.sampleAt order) positions.entries
        (c.counts positions.entries)) := by
    refine forall₂_zipWith (asc.sorted.forall₂_counts positions.entries) ?_
    intro x _ count hcount
    exact (Exact.same_iff.mp
      (asc.sorted.same_sampleAt (Exact.defined x) hcount order)).symm
  -- over the reals the same number is an equal one, so the lists are equal
  have hentries := List.forall₂_map_left_iff.mpr heach
  rw [List.forall₂_eq_eq_eq] at hentries
  rw [sample, if_pos (asc.sorted.admits_of_covers reach), hentries]

/-- **ASKED AT ALL KNOTS AT ONCE** a curve answers for all of them what it
    has at each. -/
theorem sample_knots {order : Order} {part : Knot ℝ → ℝ}
    (h : ∀ i : Fin (c.inner + 2),
      c.continued order (c.knots.get i).x = part (c.knots.get i))
    (extrapolate : Bool) :
    c.sample order extrapolate (.ofList (c.knots.toList.map Knot.x))
      = .ok (.ofList (c.knots.toList.map part)) := by
  have reach : extrapolate = true
      ∨ ∀ x ∈ (Tensor.ofList (c.knots.toList.map Knot.x)).entries,
        c.covers x = true := by
    refine Or.inr fun x hx => ?_
    obtain ⟨k, hk, rfl⟩ := List.mem_map.mp hx
    obtain ⟨i, rfl⟩ := exists_get_of_mem hk
    exact (c.covers_iff _).mpr (asc.knot_mem i)
  have hparts : (c.knots.toList.map Knot.x).map (c.continued order)
      = c.knots.toList.map part := by
    rw [List.map_map]
    refine List.map_congr_left fun k hk => ?_
    obtain ⟨i, rfl⟩ := exists_get_of_mem hk
    exact h i
  rw [asc.sample_eq_map order reach, ← hparts]
  exact congrArg Except.ok (Tensor.withEntries_ofList_map _ _)

end Ascending

/-- What a curve promises at its knots and beyond them. -/
structure Interpolates (c : Curve ℝ) : Prop where
  /-- At a knot it has the value and the slope of the knot. -/
  eval_knot : ∀ (i : Fin (c.inner + 2)) (extrapolate : Bool),
    c.eval .value extrapolate (c.knots.get i).x = .ok (c.knots.get i).y
      ∧ c.eval .first extrapolate (c.knots.get i).x
        = .ok (c.knots.get i).slope
  /-- So it has at all knots at once. -/
  sample_knots : ∀ extrapolate : Bool,
    c.sample .value extrapolate (.ofList (c.knots.toList.map Knot.x))
        = .ok (.ofList (c.knots.toList.map Knot.y))
      ∧ c.sample .first extrapolate (.ofList (c.knots.toList.map Knot.x))
        = .ok (.ofList (c.knots.toList.map Knot.slope))
  /-- Before the first knot it goes on with the slope of that knot. -/
  eval_before : ∀ x < c.xMin,
    c.eval .value true x
        = .ok (c.firstKnot.y + c.firstKnot.slope * (x - c.xMin))
      ∧ c.eval .first true x = .ok c.firstKnot.slope
  /-- Behind the last knot it goes on with the slope of that knot. -/
  eval_behind : ∀ x, c.xMax < x →
    c.eval .value true x
        = .ok (c.lastKnot.y + c.lastKnot.slope * (x - c.xMax))
      ∧ c.eval .first true x = .ok c.lastKnot.slope

/-- **EVERY CURVE** with ascending knots goes through them with their slopes,
    whatever family it is of and whatever slopes it has. -/
theorem interpolates (c : Curve ℝ) (asc : c.Ascending) : c.Interpolates where
  eval_knot := asc.eval_knot
  sample_knots := fun extrapolate =>
    ⟨asc.sample_knots (fun i => (asc.continued_knot i).1) extrapolate,
      asc.sample_knots (fun i => (asc.continued_knot i).2) extrapolate⟩
  eval_before := by
    intro x hx
    rw [eval_true, eval_true, asc.sorted.continued_of_lt_xMin hx,
      asc.sorted.continued_of_lt_xMin hx, asc.leftSlope_eq]
    exact ⟨rfl, rfl⟩
  eval_behind := by
    intro x hx
    rw [eval_true, eval_true, asc.sorted.continued_of_xMax_lt hx,
      asc.sorted.continued_of_xMax_lt hx, asc.rightSlope_eq]
    exact ⟨rfl, rfl⟩

/-- The inner knot, all three knots and a position before the first one. -/
theorem interpolates_bent :
    (bent : Curve ℝ).Ascending
      ∧ (bent : Curve ℝ).eval .value false 1 = .ok 2
      ∧ (bent : Curve ℝ).sample .first false (.ofList [0, 1, 3])
        = .ok (.ofList [1, -1, 0])
      ∧ (bent : Curve ℝ).eval .value true (-2) = .ok (-2) := by
  obtain ⟨hknots, hall, hbefore, -⟩ := interpolates bent ascending_bent
  refine ⟨ascending_bent, (hknots (1 : Fin 3) false).1, (hall false).2, ?_⟩
  have hneg : (-2 : ℝ) < (bent : Curve ℝ).xMin := by
    show (-2 : ℝ) < 0
    norm_num
  rw [(hbefore (-2) hneg).1]
  show (Except.ok ((0 : ℝ) + 1 * (-2 - 0)) : Except (Fault ℝ) ℝ) = .ok (-2)
  norm_num

end Curve

end PiecewiseCubic
