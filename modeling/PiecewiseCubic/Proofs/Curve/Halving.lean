import PiecewiseCubic.Proofs.Curve.Sampling
import PiecewiseCubic.Proofs.Session

/-! # Halving down to one segment

    A position is looked up by rounds: of two knots that are no neighbours
    the one in the middle takes the place of one, according to whether it is
    behind the position.  A round looks at a knot that exists and leaves fewer
    knots between the two, whatever the order of the knots and even where the
    position or a knot is undefined; so all rounds lead to one segment of the
    curve.  On sorted knots it is the only segment around a defined position,
    and the one that begins with the last knot not behind it. -/

namespace PiecewiseCubic

open Scalar

namespace Curve

section Rounds

variable {α : Type} [Scalar α]

/-- One round of the look-up of `x`, between the knots with two numbers. -/
inductive Halving (c : Curve α) (x : α) : ℕ × ℕ → ℕ × ℕ → Prop where
  | lower {low high : ℕ} {k : Knot α} (apart : low + 1 < high)
      (middle : c.knots[(low + high) / 2]? = some k) (hx : x < k.x) :
      Halving c x (low, high) (low, (low + high) / 2)
  | upper {low high : ℕ} {k : Knot α} (apart : low + 1 < high)
      (middle : c.knots[(low + high) / 2]? = some k) (hx : ¬ x < k.x) :
      Halving c x (low, high) ((low + high) / 2, high)

variable {c : Curve α} {x : α} {b b' b'' : ℕ × ℕ}

theorem Halving.apart (h : c.Halving x b b') : b.1 + 1 < b.2 := by
  cases h with
  | lower apart | upper apart => exact apart

/-- A round brings the two knots closer together. -/
theorem Halving.narrows (h : c.Halving x b b') : b'.2 - b'.1 < b.2 - b.1 := by
  cases h with
  | lower apart | upper apart =>
      dsimp only
      omega

/-- **NO LOOK-UP GOES ON FOR EVER**. -/
theorem wellFounded_halving (c : Curve α) (x : α) :
    WellFounded fun b' b => c.Halving x b b' :=
  Subrelation.wf Halving.narrows (measure fun b : ℕ × ℕ => b.2 - b.1).wf

/-- There is one way to go on. -/
theorem Halving.unique (h : c.Halving x b b') (h' : c.Halving x b b'') :
    b' = b'' := by
  cases h with
  | lower _ middle hx =>
      cases h' with
      | lower => rfl
      | upper _ middle' hx' =>
          obtain rfl := Option.some.inj (middle.symm.trans middle')
          exact absurd hx hx'
  | upper _ middle hx =>
      cases h' with
      | lower _ middle' hx' =>
          obtain rfl := Option.some.inj (middle.symm.trans middle')
          exact absurd hx' hx
      | upper => rfl

/-- **THE ROUNDS** between two knots of the curve lead to two neighbours, the
    ends of the segment that is answered. -/
theorem halving_bisect (c : Curve α) (x : α) (low high : ℕ) (lt : low < high)
    (le : high ≤ c.inner + 1) :
    Relation.ReflTransGen (c.Halving x) (low, high)
      ((c.bisect x low high lt le).val,
        (c.bisect x low high lt le).val + 1) := by
  fun_induction bisect c x low high lt le with
  | case1 low high lt le apart mid hx ih =>
      have hmid : mid < c.inner + 2 := by omega
      exact .head (.lower apart (Vector.getElem?_eq_getElem hmid) hx) ih
  | case2 low high lt le apart mid hx ih =>
      have hmid : mid < c.inner + 2 := by omega
      exact .head (.upper apart (Vector.getElem?_eq_getElem hmid) hx) ih
  | case3 low high lt le h =>
      obtain rfl : high = low + 1 := by omega
      exact .refl

/-- **EVERY ROUND** of a look-up leads on to the segment that is answered. -/
theorem halving_segmentIndex
    (h : Relation.ReflTransGen (c.Halving x) (0, c.inner + 1) b) :
    Relation.ReflTransGen (c.Halving x) b
      ((c.segmentIndex x).val, (c.segmentIndex x).val + 1) := by
  have hends := c.halving_bisect x 0 (c.inner + 1) (by omega) (by omega)
  have hunique : Relator.RightUnique (c.Halving x) :=
    fun _ _ _ h h' => h.unique h'
  rcases Relation.ReflTransGen.total_of_right_unique hunique h hends
    with hon | hback
  · exact hon
  · -- nothing follows the two neighbours, so these are all that is left
    rcases Relation.ReflTransGen.cases_head hback with heq | ⟨_, hnext, -⟩
    · rw [← heq]
      exact .refl
    · exact absurd hnext.apart (lt_irrefl _)

/-- Segment `i` begins with the first knot or one that `x` is not before, and
    ends with the last knot or one that `x` is before. -/
def Surrounds (c : Curve α) (i : Fin (c.inner + 1)) (x : α) : Prop :=
  (i.val = 0 ∨ (c.segment i).left.x ≤ x)
    ∧ (i.val = c.inner ∨ x < (c.segment i).right.x)

end Rounds

variable {α : Type} [Scalar α] [LawfulScalar α] {c : Curve α} {x : α}

namespace Sorted

variable (sorted : c.Sorted)

include sorted

/-- A knot is at a defined position or before it just if it is not behind
    it. -/
theorem knot_le_iff (hx : Defined x) (i : Fin (c.inner + 2)) :
    (c.knots.get i).x ≤ x ↔ ¬ x < (c.knots.get i).x := by
  rw [LawfulScalar.le_iff, and_iff_right (sorted.defined i),
    and_iff_right hx]

/-- **ONE SEGMENT** is around a defined position: the one that is answered. -/
theorem surrounds_iff (hx : Defined x) {i : Fin (c.inner + 1)} :
    c.Surrounds i x ↔ i = c.segmentIndex x := by
  have hsurrounds : ∀ j : Fin (c.inner + 1), c.Surrounds j x
      ↔ (j.val = 0 ∨ ¬ x < (c.segment j).left.x)
        ∧ (j.val = c.inner ∨ x < (c.segment j).right.x) := fun j =>
    and_congr_left' (or_congr_right (sorted.knot_le_iff hx j.castSucc))
  have hfound := c.segmentIndex_bracket x
  rw [hsurrounds]
  constructor
  · rintro ⟨hleft, hright⟩
    exact le_antisymm (sorted.index_le hleft hfound.2)
      (sorted.index_le hfound.1 hright)
  · rintro rfl
    exact hfound

/-- The count of a defined position is that of the knots at or before it. -/
theorem countP_eq_of_counts (hx : Defined x) {count : ℕ}
    (h : c.Counts x count) :
    c.knots.toList.countP (fun k => decide (k.x ≤ x)) = count := by
  have hknot : ∀ i : Fin (c.inner + 2),
      (c.knots.get i).x ≤ x ↔ i.val < count := by
    intro i
    rw [sorted.knot_le_iff hx, ← h.notBehind_iff,
      LawfulScalar.notBehind_iff_of_defined (sorted.defined i)]
  rw [← List.take_append_drop count c.knots.toList, List.countP_append]
  have hbefore : (c.knots.toList.take count).countP
      (fun k => decide (k.x ≤ x)) = count := by
    have hlength : (c.knots.toList.take count).length = count := by
      simpa using h.le
    rw [List.countP_eq_length.mpr, hlength]
    intro k hk
    obtain ⟨i, hi, rfl⟩ := List.mem_take_iff_getElem.mp hk
    rw [lt_min_iff] at hi
    exact decide_eq_true ((hknot ⟨i, by simpa using hi.2⟩).mpr hi.1)
  have hbehind : (c.knots.toList.drop count).countP
      (fun k => decide (k.x ≤ x)) = 0 := by
    rw [List.countP_eq_zero]
    intro k hk
    obtain ⟨i, hi, rfl⟩ := List.mem_drop_iff_getElem.mp hk
    rw [decide_eq_true_eq]
    exact fun hle => absurd
      ((hknot ⟨count + i, by simpa [Nat.add_comm] using hi⟩).mp hle) (by simp)
  rw [hbefore, hbehind, Nat.add_zero]

end Sorted

end Curve

namespace Session

variable {α : Type} [Scalar α]

/-- A number is looked up as it is. -/
theorem step_segment (c : Curve α) (x : α) :
    step (some c) (.segment (.number x))
      = (some c, .ok (.index (c.segmentIndex x).val)) := by
  have hnumber : segmentOf c (.number x) = .ok (c.segmentIndex x).val := by
    rw [segmentOf]
    split_ifs with honly
    · have hlt := (c.segmentIndex x).isLt
      exact congrArg Except.ok (by omega)
    · rfl
  have hask : ask (some c) (.segment (.number x))
      = .ok (.index (c.segmentIndex x).val) := by
    rw [ask]
    show segmentOf c (.number x) >>= _ = _
    rw [hnumber]
    rfl
  exact Prod.ext rfl hask

/-- **THE SEGMENT OF A POSITION**: for every curve and every position the
    rounds of the look-up come to an end, all at one segment of the curve,
    which is the answer.  On sorted knots it is the only segment around a
    defined position, and the one that the count of the knots at or before the
    position tells, if it is moved into the range of the segments. -/
theorem segment_located [LawfulScalar α] (c : Curve α) (x : α) :
    ∃ i : Fin (c.inner + 1),
      step (some c) (.segment (.number x)) = (some c, .ok (.index i.val))
        ∧ (WellFounded fun b' b => c.Halving x b b')
        ∧ (∀ b, Relation.ReflTransGen (c.Halving x) (0, c.inner + 1) b →
          Relation.ReflTransGen (c.Halving x) b (i.val, i.val + 1))
        ∧ (c.Sorted → Defined x →
          (∀ j, c.Surrounds j x ↔ j = i)
            ∧ ∃ count : ℕ, c.counts [x] = [count]
              ∧ c.knots.toList.countP (fun k => decide (k.x ≤ x)) = count
              ∧ c.segmentOfCount count = i
              ∧ (i.val : ℤ) = min (max ((count : ℤ) - 1) 0) c.inner) := by
  refine ⟨c.segmentIndex x, step_segment c x, c.wellFounded_halving x,
    fun b => Curve.halving_segmentIndex, fun sorted hx => ?_⟩
  refine ⟨fun j => sorted.surrounds_iff hx, ?_⟩
  obtain ⟨count, hcount, hcounts⟩ : ∃ count, c.Counts x count
      ∧ c.counts [x] = [count] := by
    have hall := sorted.forall₂_counts [x]
    generalize c.counts [x] = counts at hall
    cases hall with
    | cons hcount hnil =>
        cases hnil
        exact ⟨_, hcount, rfl⟩
  have hsegment := sorted.segmentOfCount_eq hcount
  refine ⟨count, hcounts, sorted.countP_eq_of_counts hx hcount, hsegment, ?_⟩
  have hval : min (count - 1) c.inner = (c.segmentIndex x).val :=
    congrArg Fin.val hsegment
  omega

/-- The inner knot belongs to the segment behind it: it is the second of two
    knots that are not behind it. -/
theorem segment_located_bent :
    (Curve.bent : Curve Float).Sorted ∧ Defined (1 : Float)
      ∧ step (some Curve.bent) (.segment (.number (1 : Float)))
        = (some Curve.bent, .ok (.index 1))
      ∧ Curve.bent.counts [(1 : Float)] = [2] := by
  have sorted : (Curve.bent : Curve Float).Sorted := by decide +kernel
  have hone : Defined (1 : Float) := by decide +kernel
  obtain ⟨i, hstep, -, -, hfound⟩ := segment_located Curve.bent (1 : Float)
  obtain ⟨hsurrounds, count, hcounts, hcount, -⟩ := hfound sorted hone
  have hi : (1 : Fin 2) = i :=
    (hsurrounds (1 : Fin 2)).mp ⟨Or.inr (by decide +kernel), Or.inl rfl⟩
  have htwo : (Curve.bent : Curve Float).knots.toList.countP
      (fun k => decide (k.x ≤ 1)) = 2 := by decide +kernel
  rw [← hi] at hstep
  rw [htwo] at hcount
  rw [← hcount] at hcounts
  exact ⟨sorted, hone, hstep, hcounts⟩

end Session

end PiecewiseCubic
