import PiecewiseCubic.Proofs.Curve.Derivative
import PiecewiseCubic.Proofs.Double
import PiecewiseCubic.Curve.Sampling

/-! # Many positions and one position

    On sorted knots the look-up of many positions finds for each of them how
    many knots are not behind it, wherever it starts from: what was found for
    the position before bounds the answer from below or from above.  The
    segment that this count tells is the one that halving ends with.  Moving a
    position into the range changes it only where it is an end of the range
    written differently, and a segment answers the same number to both. -/

namespace PiecewiseCubic

open Scalar

namespace Segment

variable {α : Type} [Scalar α] [LawfulScalar α] {t u : α}

/-- The weights do not tell apart fractions that are one number. -/
theorem same_weights (h : Same t u) (order : Order) :
    Same (weights t order).leftValue (weights u order).leftValue
      ∧ Same (weights t order).leftSlope (weights u order).leftSlope
      ∧ Same (weights t order).rightValue (weights u order).rightValue
      ∧ Same (weights t order).rightSlope (weights u order).rightSlope := by
  cases order <;> refine ⟨?_, ?_, ?_, ?_⟩ <;>
    apply_rules [Same.refl, LawfulScalar.same_add, LawfulScalar.same_sub,
      LawfulScalar.same_mul]

/-- A segment does not tell apart positions that are one number. -/
theorem same_eval (s : Segment α) (order : Order) {x y : α} (h : Same x y) :
    Same (s.eval order x) (s.eval order y) := by
  have ht : Same ((x - s.left.x) / s.width) ((y - s.left.x) / s.width) :=
    LawfulScalar.same_div _ (LawfulScalar.same_sub h (Same.refl _))
  obtain ⟨hlv, hls, hrv, hrs⟩ := same_weights ht order
  cases order with
  | value =>
      apply_rules [Same.refl, LawfulScalar.same_add, LawfulScalar.same_mul]
  | first | second | third =>
      refine LawfulScalar.same_div _ ?_
      apply_rules [Same.refl, LawfulScalar.same_add, LawfulScalar.same_mul]

end Segment

namespace Curve

variable {α : Type} [Scalar α]

/-- The knots that are not behind a position are the first `count` ones. -/
structure Counts (c : Curve α) (x : α) (count : ℕ) : Prop where
  le : count ≤ c.inner + 2
  notBehind_iff : ∀ i : Fin (c.inner + 2),
    notBehind (c.knots.get i).x x = true ↔ i.val < count

namespace Sorted

variable [LawfulScalar α] {c : Curve α} (sorted : c.Sorted)

include sorted

/-- Knots are before one another, so none of them is undefined. -/
theorem defined (i : Fin (c.inner + 2)) : Defined (c.knots.get i).x := by
  cases i using Fin.lastCases with
  | last => exact (LawfulScalar.defined_of_lt sorted.xMin_lt_xMax).2
  | cast i =>
      exact (LawfulScalar.defined_of_lt
        (sorted i.castSucc i.succ i.castSucc_lt_succ)).1

theorem notBehind_knots {i j : Fin (c.inner + 2)} (h : i ≤ j) :
    notBehind (c.knots.get i).x (c.knots.get j).x = true := by
  rcases h.lt_or_eq with hlt | rfl
  · exact LawfulScalar.notBehind_of_lt (sorted i j hlt)
  · exact LawfulScalar.notBehind_self _

/-! ## How many knots are not behind a position -/

/-- **HALVING COUNTS** if the knots before the lower place are not behind the
    position and those from the upper place on are. -/
theorem counts_upperBound {x : α} {low high : ℕ} (le : high ≤ c.inner + 2)
    (hle : low ≤ high)
    (hlow : ∀ i : Fin (c.inner + 2), i.val < low →
      notBehind (c.knots.get i).x x = true)
    (hhigh : ∀ i : Fin (c.inner + 2), high ≤ i.val →
      ¬ notBehind (c.knots.get i).x x = true) :
    c.Counts x (c.upperBound x low high le) := by
  fun_induction upperBound c x low high le with
  | case1 low high le h mid hmid ih =>
      refine ih (by omega) (fun i hi => ?_) hhigh
      -- a knot that is not behind the middle one is not behind `x`
      have hlt : mid < c.inner + 2 := by omega
      have hi' : i ≤ ⟨mid, hlt⟩ := Nat.le_of_lt_succ hi
      exact LawfulScalar.notBehind_trans (sorted.notBehind_knots hi') hmid
  | case2 low high le h mid hmid ih =>
      refine ih (by omega) hlow (fun i hi hbehind => hmid ?_)
      -- nor is the middle one if a knot from it on is not
      have hlt : mid < c.inner + 2 := by omega
      have hi' : (⟨mid, hlt⟩ : Fin (c.inner + 2)) ≤ i := hi
      exact LawfulScalar.notBehind_trans (sorted.notBehind_knots hi') hbehind
  | case3 low high le h =>
      obtain rfl : low = high := by omega
      refine ⟨le, fun i => ⟨fun hi => ?_, hlow i⟩⟩
      by_contra hge
      exact hhigh i (not_lt.mp hge) hi

/-- **THE NEXT COUNT** may start from the last one. -/
theorem counts_next {last : α} {found : ℕ} (h : c.Counts last found) (x : α) :
    c.Counts x
      (if notBehind last x = true then
        c.upperBound x found (c.inner + 2) (Nat.le_refl _)
      else
        c.upperBound x 0 (Nat.min (found + 1) (c.inner + 2))
          (Nat.min_le_right _ _)) := by
  split
  case isTrue hlast =>
    refine sorted.counts_upperBound _ h.le (fun i hi => ?_) fun i hi => ?_
    · exact LawfulScalar.notBehind_trans ((h.notBehind_iff i).mpr hi) hlast
    · exact absurd i.isLt (not_lt.mpr hi)
  case isFalse hlast =>
    have hbefore : notBehind x last = true :=
      (Bool.or_eq_true _ _ ▸ LawfulScalar.notBehind_total last x).resolve_left
        hlast
    refine sorted.counts_upperBound _ (Nat.zero_le _)
      (fun i hi => absurd hi (Nat.not_lt_zero _)) fun i hi hx => ?_
    -- the knots that were behind the last position are behind this one
    have hi' : min (found + 1) (c.inner + 2) ≤ i.val := hi
    have hfound := (h.notBehind_iff i).mp
      (LawfulScalar.notBehind_trans hx hbefore)
    omega

theorem forall₂_countsFrom (xs : List α) {last : α} {found : ℕ}
    (h : c.Counts last found) :
    List.Forall₂ c.Counts xs (c.countsFrom last found xs) := by
  induction xs generalizing last found with
  | nil => exact List.Forall₂.nil
  | cons x xs ih =>
      have hnext := sorted.counts_next h x
      exact List.Forall₂.cons hnext (ih hnext)

/-- **EACH COUNT IS RIGHT**, whatever was looked up before. -/
theorem forall₂_counts (xs : List α) :
    List.Forall₂ c.Counts xs (c.counts xs) := by
  cases xs with
  | nil => exact List.Forall₂.nil
  | cons x xs =>
      have hfirst : c.Counts x
          (c.upperBound x 0 (c.inner + 2) (Nat.le_refl _)) :=
        sorted.counts_upperBound _ (Nat.zero_le _)
          (fun i hi => absurd hi (Nat.not_lt_zero _))
          fun i hi => absurd i.isLt (not_lt.mpr hi)
      have hcons : c.counts (x :: xs)
          = c.upperBound x 0 (c.inner + 2) (Nat.le_refl _)
            :: c.countsFrom x
              (c.upperBound x 0 (c.inner + 2) (Nat.le_refl _)) xs := by
        rw [counts, countsFrom, if_pos (LawfulScalar.notBehind_self x)]
      rw [hcons]
      exact List.Forall₂.cons hfirst (sorted.forall₂_countsFrom xs hfirst)

/-- The segment that a count tells is the one that halving ends with. -/
theorem segmentOfCount_eq {x : α} {count : ℕ} (h : c.Counts x count) :
    c.segmentOfCount count = c.segmentIndex x := by
  obtain ⟨i, hi⟩ : ∃ i, i = c.segmentOfCount count := ⟨_, rfl⟩
  have hval : i.val = min (count - 1) c.inner := congrArg Fin.val hi
  rw [← hi]
  refine le_antisymm (sorted.index_le ?_ (c.segmentIndex_bracket x).2)
    (sorted.index_le (c.segmentIndex_bracket x).1 ?_)
  · by_cases hzero : i.val = 0
    · exact Or.inl hzero
    · have hcount : i.castSucc.val < count := by
        show i.val < count
        omega
      exact Or.inr (LawfulScalar.notBehind_iff.mp
        ((h.notBehind_iff i.castSucc).mpr hcount)).1
  · by_cases hlast : i.val = c.inner
    · exact Or.inl hlast
    · have hcount : ¬ i.succ.val < count := by
        show ¬ i.val + 1 < count
        omega
      have hbehind := mt (h.notBehind_iff i.succ).mp hcount
      rw [LawfulScalar.notBehind_iff_of_defined (sorted.defined _),
        not_not] at hbehind
      exact Or.inr hbehind

/-! ## One answer -/

/-- In the range a position is confined to itself, or to the end of the range
    that it is one number with. -/
theorem same_confine {x : α} (hx : Defined x) (hmin : ¬ x < c.xMin)
    (hmax : ¬ c.xMax < x) : Same (c.confine x) x := by
  have hlt := sorted.xMin_lt_xMax
  obtain ⟨hdmin, hdmax⟩ := LawfulScalar.defined_of_lt hlt
  rw [Defined] at hx hdmin
  by_cases hlow : c.xMin < x
  · by_cases hhigh : x < c.xMax
    · have heq : c.confine x = x := by simp [confine, hx, hlow, hhigh]
      exact Or.inl heq
    · have heq : c.confine x = c.xMax := by simp [confine, hx, hlow, hhigh]
      rw [heq]
      exact LawfulScalar.same_of_not_lt hdmax hx hmax hhigh
  · have heq : c.confine x = c.xMin := by simp [confine, hx, hdmin, hlow, hlt]
    rw [heq]
    exact LawfulScalar.same_of_not_lt hdmin hx hlow hmin

/-- **ONE OF MANY** is answered what it is alone. -/
theorem same_sampleAt {x : α} {count : ℕ} (hx : Defined x)
    (h : c.Counts x count) (order : Order) :
    Same (c.sampleAt order x count) (c.continued order x) := by
  rw [sampleAt]
  by_cases hmax : c.xMax < x
  · rw [if_pos hmax, sorted.continued_of_xMax_lt hmax]
    exact Same.refl _
  by_cases hmin : x < c.xMin
  · rw [if_neg hmax, if_pos hmin, sorted.continued_of_lt_xMin hmin]
    exact Same.refl _
  · have hcovers : c.covers x = true :=
      sorted.covers_iff_not_lt.mpr ⟨hx, hmin, hmax⟩
    rw [if_neg hmax, if_neg hmin, sorted.continued_of_covers hcovers, inside,
      sorted.segmentOfCount_eq h]
    exact Segment.same_eval _ order (sorted.same_confine hx hmin hmax)

/-- All positions may be asked for together if each may be alone. -/
theorem admits_of_covers {xs : List α} {extrapolate : Bool}
    (h : extrapolate = true ∨ ∀ x ∈ xs, c.covers x = true) :
    c.admits extrapolate xs = true := by
  rcases h with rfl | h
  · rfl
  · have hleft : xs.any (fun x => decide (x < c.xMin)) = false := by
      rw [List.any_eq_false]
      intro x hx
      rw [decide_eq_true_iff]
      exact (sorted.covers_iff_not_lt.mp (h x hx)).2.1
    have hright : xs.any (fun x => decide (c.xMax < x)) = false := by
      rw [List.any_eq_false]
      intro x hx
      rw [decide_eq_true_iff]
      exact (sorted.covers_iff_not_lt.mp (h x hx)).2.2
    rw [admits, hleft, hright, Bool.or_false, Bool.not_false, Bool.or_true]

end Sorted

/-- What each entry of one list and its companion give is related to the
    entry. -/
theorem forall₂_zipWith {β γ δ : Type} {r : β → γ → Prop} {s : β → δ → Prop}
    {f : β → γ → δ} {bs : List β} {cs : List γ} (h : List.Forall₂ r bs cs)
    (hf : ∀ b ∈ bs, ∀ c, r b c → s b (f b c)) :
    List.Forall₂ s bs (List.zipWith f bs cs) := by
  induction h with
  | nil => exact List.Forall₂.nil
  | cons hbc _ ih =>
      refine List.Forall₂.cons (hf _ List.mem_cons_self _ hbc) (ih ?_)
      intro b hb
      exact hf b (List.mem_cons_of_mem _ hb)

/-- **MANY POSITIONS AND ONE**: a curve with sorted knots that is asked at
    defined positions, all of them in its range unless the continuations are
    asked for, answers for each the number that it answers for that position
    alone, and arranges the answers as the positions are. -/
theorem sample_eq_eval [LawfulScalar α] (c : Curve α) (sorted : c.Sorted)
    (order : Order) (extrapolate : Bool) (positions : Tensor α)
    (defined : ∀ x ∈ positions.entries, Defined x)
    (reach : extrapolate = true
      ∨ ∀ x ∈ positions.entries, c.covers x = true) :
    ∃ answers : Tensor α,
      c.sample order extrapolate positions = .ok answers
        ∧ answers.shape = positions.shape
        ∧ List.Forall₂
          (fun x answer => ∃ y, c.eval order extrapolate x = .ok y
            ∧ Same answer y)
          positions.entries answers.entries := by
  refine ⟨_, if_pos (sorted.admits_of_covers reach), rfl, ?_⟩
  refine forall₂_zipWith (sorted.forall₂_counts positions.entries) ?_
  intro x hx count hcount
  refine ⟨c.continued order x, if_pos ?_, ?_⟩
  · rw [Bool.or_eq_true]
    exact reach.imp_right fun h => h x hx
  · exact sorted.same_sampleAt (defined x hx) hcount order

/-- Two rows of doubles before, at, between and behind the knots, the first
    knot once with either sign of its zero. -/
theorem sample_eq_eval_bent :
    ∃ positions answers : Tensor Float,
      positions = ⟨[2, 4], [5, -0, 0.5, 1, 0, 3, 2, -1]⟩
        ∧ (bent : Curve Float).Sorted
        ∧ bent.sample .first true positions = .ok answers
        ∧ answers.shape = [2, 4]
        ∧ List.Forall₂
          (fun x answer => ∃ y, bent.eval .first true x = .ok y
            ∧ Same answer y)
          positions.entries answers.entries := by
  have sorted : (bent : Curve Float).Sorted := by decide +kernel
  obtain ⟨answers, hanswers, hshape, hentries⟩ :=
    sample_eq_eval bent sorted .first true
      ⟨[2, 4], [5, -0, 0.5, 1, 0, 3, 2, -1]⟩ (by decide +kernel) (Or.inl rfl)
  exact ⟨_, answers, rfl, sorted, hanswers, hshape, hentries⟩

end Curve

end PiecewiseCubic
