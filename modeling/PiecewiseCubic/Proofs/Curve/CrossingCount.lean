import PiecewiseCubic.Proofs.Curve.Meeting
import PiecewiseCubic.Proofs.Polynomial.Exactness

/-! # How many crossings are reported

    Where no two meetings are so close that they count as one, the search
    keeps each of them once: a segment answers its crossings in ascending
    order, and the one at a knot is found again first on the segment behind.
    But the search stops after the first segment that brings the count above
    one, so what is reported is not how many meetings there are in the
    interval, but how many there are up to the end of that segment. -/

namespace PiecewiseCubic

open Set

variable {p : Cubic ℝ} {lo hi z : ℝ}

theorem Segment.pairwise_segmentCrossings {s : Segment ℝ} {rs : List ℝ}
    (h : Curve.segmentCrossings s p lo hi = .ok rs) :
    rs.Pairwise (· < ·) := by
  obtain ⟨roots, hroots, -⟩ := Roots.exists_cubic .infinite (s.difference p)
  rw [segmentCrossings_eq hroots] at h
  rw [← Except.ok.inj h, List.pairwise_map]
  refine ((Roots.pairwise_cubic _ _ _ _ _ hroots).filter _).imp ?_
  intro r r' hlt
  exact (add_lt_add_iff_left _).mpr hlt

namespace Curve

/-! ## Positions that are kept -/

/-- No two of the positions are so close that they count as one. -/
def Spaced (S : Set ℝ) : Prop :=
  ∀ y ∈ S, ∀ z ∈ S, y ≠ z → 1e-14 + 1e-12 * |z| < |y - z|

theorem Spaced.not_isClose {S : Set ℝ} (h : Spaced S) {y : ℝ} (hy : y ∈ S)
    (hz : z ∈ S) (hne : y ≠ z) : ¬ Scalar.isClose y z = true := by
  rw [isClose_iff, not_le]
  exact h y hy z hz hne

/-- The list holds the positions of a set, the last one first. -/
structure Lists (S : Set ℝ) (kept : List ℝ) : Prop where
  descending : kept.Pairwise (· > ·)
  mem_iff : ∀ z, z ∈ kept ↔ z ∈ S

theorem lists_nil : Lists ∅ [] where
  descending := List.Pairwise.nil
  mem_iff := fun z => iff_of_false List.not_mem_nil (notMem_empty z)

namespace Lists

variable {S : Set ℝ} {kept : List ℝ} (h : Lists S kept)

include h

/-- The list is as long as there are positions. -/
theorem encard : S.encard = kept.length := by
  have hset : S = {z | z ∈ kept} := Set.ext fun z => (h.mem_iff z).symm
  have hnodup : kept.Nodup := h.descending.imp ne_of_gt
  rw [hset, ← List.coe_toFinset, encard_coe_eq_coe_finsetCard,
    List.toFinset_card_of_nodup hnodup]

/-- **ONE MORE POSITION** behind the others is kept, unless it is the last one
    of them. -/
theorem add {r : ℝ} (behind : ∀ z ∈ S, z ≤ r)
    (spaced : Spaced (insert r S)) :
    Lists (insert r S) (addCrossing kept r) := by
  by_cases hr : r ∈ S
  · -- as no position is behind it, it is the last one
    have hadd : addCrossing kept r = kept := by
      cases kept with
      | nil => exact absurd ((h.mem_iff r).mpr hr) List.not_mem_nil
      | cons last rest =>
          have hlast : last ≤ r :=
            behind last ((h.mem_iff last).mp List.mem_cons_self)
          have hle : r ≤ last := by
            rcases List.mem_cons.mp ((h.mem_iff r).mpr hr) with rfl | hrest
            · exact le_refl r
            · exact ((List.pairwise_cons.mp h.descending).1 r hrest).le
          rw [le_antisymm hle hlast]
          exact if_pos (isClose_self last)
    rw [hadd, insert_eq_of_mem hr]
    exact h
  · have hadd : addCrossing kept r = r :: kept := by
      cases kept with
      | nil => rfl
      | cons last rest =>
          have hlast : last ∈ S := (h.mem_iff last).mp List.mem_cons_self
          refine if_neg (spaced.not_isClose (Or.inl rfl) (Or.inr hlast) ?_)
          rintro rfl
          exact hr hlast
    rw [hadd]
    constructor
    · refine List.pairwise_cons.mpr ⟨fun z hz => ?_, h.descending⟩
      have hmem := (h.mem_iff z).mp hz
      refine (behind z hmem).lt_of_ne ?_
      rintro rfl
      exact hr hmem
    · intro z
      rw [List.mem_cons, h.mem_iff]
      exact Iff.rfl

/-- Positions in ascending order are kept, unless the first one is the last of
    those before. -/
theorem addAll {rs : List ℝ} (ascending : rs.Pairwise (· < ·))
    (behind : ∀ z ∈ S, ∀ r ∈ rs, z ≤ r)
    (spaced : Spaced (S ∪ {z | z ∈ rs})) :
    Lists (S ∪ {z | z ∈ rs}) (rs.foldl addCrossing kept) := by
  induction rs generalizing S kept with
  | nil => simpa using h
  | cons r rs ih =>
      obtain ⟨hr, hrs⟩ := List.pairwise_cons.mp ascending
      rw [union_mem_cons] at spaced ⊢
      refine ih (h.add (fun z hz => behind z hz r List.mem_cons_self) ?_) hrs
        ?_ spaced
      · intro y hy z hz
        exact spaced y (Or.inl hy) z (Or.inl hz)
      · rintro z (rfl | hz) r' hr'
        · exact (hr r' hr').le
        · exact behind z hz r' (List.mem_cons_of_mem r hr')

end Lists

/-! ## Along the segments -/

variable {c : Curve ℝ}

/-- **THE SEARCH** ends with one position at most, or stops at the first
    segment up to whose end there are more, and counts those. -/
theorem collectCrossings_counts (asc : c.Ascending) (p : Cubic ℝ)
    (lo hi : ℝ) {S : Set ℝ} {kept : List ℝ} (h : Lists S kept)
    (hone : kept.length ≤ 1) {is : List (Fin (c.inner + 1))}
    (sorted : is.Pairwise (· < ·))
    (behind : ∀ i ∈ is, ∀ z ∈ S, z ≤ (c.segment i).left.x)
    (spaced : Spaced (S ∪ c.crossingsOn p lo hi is)) :
    (∃ ks, c.collectCrossings p lo hi kept is = .ok ks ∧ ks.length ≤ 1
        ∧ Lists (S ∪ c.crossingsOn p lo hi is) ks)
      ∨ ∃ (before : List (Fin (c.inner + 1))) (i : Fin (c.inner + 1))
          (rest : List (Fin (c.inner + 1))) (n : ℕ),
        is = before ++ i :: rest ∧ 2 ≤ n
        ∧ c.collectCrossings p lo hi kept is = .error (.crossings n lo hi)
        ∧ (S ∪ c.crossingsOn p lo hi before).encard ≤ 1
        ∧ (S ∪ c.crossingsOn p lo hi (before ++ [i])).encard = n := by
  induction is generalizing S kept with
  | nil =>
      refine Or.inl ⟨kept, rfl, hone, ?_⟩
      rwa [crossingsOn_nil, union_empty]
  | cons i is ih =>
      obtain ⟨later, his⟩ := List.pairwise_cons.mp sorted
      obtain ⟨rs, hrs, hmem⟩ :=
        Segment.exists_segmentCrossings (asc.width_ne_zero i) p lo hi
      have hset : {z | z ∈ rs} = {z | (c.segment i).CrossesAt p lo hi z} :=
        Set.ext hmem
      rw [crossingsOn_cons, ← union_assoc] at spaced ⊢
      have hnext : Lists (S ∪ {z | (c.segment i).CrossesAt p lo hi z})
          (rs.foldl addCrossing kept) := by
        rw [← hset]
        refine h.addAll (Segment.pairwise_segmentCrossings hrs) ?_ ?_
        · intro z hz r hr
          exact (behind i List.mem_cons_self z hz).trans
            (max_le_iff.mp ((hmem r).mp hr).2.1).1
        · intro y hy z hz
          rw [hset] at hy hz
          exact spaced y (Or.inl hy) z (Or.inl hz)
      rw [collectCrossings_cons hrs]
      split_ifs with hmany
      · refine Or.inr ⟨[], i, is, _, rfl, hmany, rfl, ?_, ?_⟩
        · rw [crossingsOn_nil, union_empty, h.encard]
          exact_mod_cast hone
        · rw [List.nil_append, crossingsOn_cons, crossingsOn_nil, union_empty]
          exact hnext.encard
      · have hbehind : ∀ j ∈ is,
            ∀ z ∈ S ∪ {z | (c.segment i).CrossesAt p lo hi z},
            z ≤ (c.segment j).left.x := by
          rintro j hj z (hz | hz)
          · exact behind j (List.mem_cons_of_mem i hj) z hz
          · have hright : z ≤ (c.segment i).right.x :=
              (le_min_iff.mp hz.2.2.1).1
            exact hright.trans (asc.le (later j hj) (by omega))
        rcases ih hnext (not_lt.mp hmany) his hbehind spaced with
          hall | ⟨before, k, rest, n, rfl, hn, hrun, hbefore, hcount⟩
        · exact Or.inl hall
        · refine Or.inr ⟨i :: before, k, rest, n, rfl, hn, hrun, ?_, ?_⟩
          · rwa [crossingsOn_cons, ← union_assoc]
          · rwa [List.cons_append, crossingsOn_cons, ← union_assoc]

/-! ## Meetings -/

/-- The positions between two others where the curve meets the polynomial. -/
def meetings (c : Curve ℝ) (p : Cubic ℝ) (lo hi : ℝ) : Set ℝ :=
  {z | lo ≤ z ∧ z ≤ hi ∧ c.Meets p z}

/-- The meetings up to the end of a segment. -/
def meetingsUpTo (c : Curve ℝ) (p : Cubic ℝ) (lo hi : ℝ)
    (i : Fin (c.inner + 1)) : Set ℝ :=
  c.meetings p lo hi ∩ Iic (c.segment i).right.x

/-- The number of meetings up to the end of the first segment up to whose end
    there is more than one. -/
def CountsUpTo (c : Curve ℝ) (p : Cubic ℝ) (lo hi : ℝ) (n : ℕ) : Prop :=
  2 ≤ n ∧ ∃ i ∈ c.segmentsBetween lo hi,
    (c.meetingsUpTo p lo hi i).encard = n
      ∧ ∀ j ∈ c.segmentsBetween lo hi, j < i →
        (c.meetingsUpTo p lo hi j).encard ≤ 1

theorem CountsUpTo.le {n : ℕ} (h : c.CountsUpTo p lo hi n) :
    2 ≤ (c.meetings p lo hi).encard := by
  obtain ⟨hn, i, -, hcount, -⟩ := h
  calc (2 : ℕ∞) ≤ n := by exact_mod_cast hn
    _ = (c.meetingsUpTo p lo hi i).encard := hcount.symm
    _ ≤ (c.meetings p lo hi).encard := encard_le_encard inter_subset_left

/-- There is one such segment only. -/
theorem CountsUpTo.unique {n n' : ℕ} (h : c.CountsUpTo p lo hi n)
    (h' : c.CountsUpTo p lo hi n') : n = n' := by
  obtain ⟨hn, i, hi, hcount, hfirst⟩ := h
  obtain ⟨hn', i', hi', hcount', hfirst'⟩ := h'
  rcases lt_trichotomy i i' with hlt | rfl | hlt
  · have hone : n ≤ 1 := by exact_mod_cast hcount ▸ hfirst' i hi hlt
    omega
  · exact_mod_cast hcount.symm.trans hcount'
  · have hone : n' ≤ 1 := by exact_mod_cast hcount' ▸ hfirst i' hi' hlt
    omega

namespace Ascending

variable (asc : c.Ascending)

include asc

theorem crossesAt_iff {i : Fin (c.inner + 1)} (leaves : ¬ c.Follows p i) :
    (c.segment i).CrossesAt p lo hi z
      ↔ ((c.segment i).left.x ≤ z ∧ z ≤ (c.segment i).right.x)
        ∧ z ∈ c.meetings p lo hi := by
  constructor
  · rintro ⟨-, h₀, h₁, heq⟩
    obtain ⟨hleft, hlo⟩ := max_le_iff.mp h₀
    obtain ⟨hright, hhi⟩ := le_min_iff.mp h₁
    exact ⟨⟨hleft, hright⟩, hlo, hhi, (asc.meets_iff hleft hright).mpr heq⟩
  · rintro ⟨⟨hleft, hright⟩, hlo, hhi, hmeets⟩
    exact ⟨fun hvanish => leaves (asc.follows_of_vanishes hvanish),
      max_le hleft hlo, le_min hright hhi,
      (asc.meets_iff hleft hright).mp hmeets⟩

variable (leaves : ∀ i ∈ c.segmentsBetween lo hi, ¬ c.Follows p i)

include leaves

/-- What is found on segments up to one of them is met up to its end. -/
theorem crossingsOn_subset {is : List (Fin (c.inner + 1))}
    (his : ∀ j ∈ is, j ∈ c.segmentsBetween lo hi) {i : Fin (c.inner + 1)}
    (upTo : ∀ j ∈ is, j ≤ i) :
    c.crossingsOn p lo hi is ⊆ c.meetingsUpTo p lo hi i := by
  rintro z ⟨j, hj, hz⟩
  obtain ⟨⟨-, hright⟩, hmeets⟩ :=
    (asc.crossesAt_iff (leaves j (his j hj))).mp hz
  have hends : (c.segment j).right.x ≤ (c.segment i).right.x :=
    asc.le (Nat.succ_le_succ (upTo j hj)) (by omega)
  exact ⟨hmeets, hright.trans hends⟩

/-- What is met up to the end of a segment is found up to there. -/
theorem meetingsUpTo_subset (hmin : c.xMin ≤ lo) (hmax : hi ≤ c.xMax)
    {i : Fin (c.inner + 1)} (hi' : i ∈ c.segmentsBetween lo hi)
    {is : List (Fin (c.inner + 1))}
    (his : ∀ j ∈ c.segmentsBetween lo hi, j ≤ i → j ∈ is) :
    c.meetingsUpTo p lo hi i ⊆ c.crossingsOn p lo hi is := by
  rintro z ⟨hz, hright⟩
  rcases le_or_gt (c.segment i).left.x z with hleft | hlt
  · exact ⟨i, his i hi' le_rfl,
      (asc.crossesAt_iff (leaves i hi')).mpr ⟨⟨hleft, hright⟩, hz⟩⟩
  · have hindex : c.segmentIndex z ≤ i :=
      asc.segmentIndex_le (Or.inr (hlt.trans (asc.lt (Nat.lt_succ_self _)
        (by omega))))
    have hmem : c.segmentIndex z ∈ c.segmentsBetween lo hi :=
      c.mem_segmentsBetween.mpr
        ⟨asc.segmentIndex_mono hz.1, asc.segmentIndex_mono hz.2.1⟩
    exact ⟨_, his _ hmem hindex, (asc.crossesAt_iff (leaves _ hmem)).mpr
      ⟨asc.mem_segment (hmin.trans hz.1) (hz.2.1.trans hmax), hz⟩⟩

theorem crossingsBetween_eq (hmin : c.xMin ≤ lo) (hmax : hi ≤ c.xMax) :
    c.crossingsBetween p lo hi = c.meetings p lo hi := by
  refine Subset.antisymm (fun z => asc.meets_of_mem) ?_
  rintro z ⟨hlo, hhi, hz⟩
  rcases asc.mem_or_follows hmin hmax hlo hhi hz with
    hmem | ⟨i, hi, hfollows, -⟩
  · exact hmem
  · exact absurd hfollows (leaves i hi)

end Ascending

theorem pairwise_segmentsBetween (c : Curve ℝ) (lo hi : ℝ) :
    (c.segmentsBetween lo hi).Pairwise (· < ·) :=
  (List.pairwise_lt_finRange _).filter _

/-- **WHERE THE SEARCH STOPS** there is more than one meeting for the first
    time. -/
theorem Ascending.countsUpTo (asc : c.Ascending) (hmin : c.xMin ≤ lo)
    (hmax : hi ≤ c.xMax)
    (leaves : ∀ i ∈ c.segmentsBetween lo hi, ¬ c.Follows p i)
    {before : List (Fin (c.inner + 1))} {i : Fin (c.inner + 1)}
    {rest : List (Fin (c.inner + 1))} {n : ℕ}
    (hsplit : c.segmentsBetween lo hi = before ++ i :: rest) (hn : 2 ≤ n)
    (hone : (c.crossingsOn p lo hi before).encard ≤ 1)
    (hcount : (c.crossingsOn p lo hi (before ++ [i])).encard = n) :
    c.CountsUpTo p lo hi n := by
  have hsorted := c.pairwise_segmentsBetween lo hi
  rw [hsplit] at hsorted
  obtain ⟨-, hrest, hbefore⟩ := List.pairwise_append.mp hsorted
  have hmem (j : Fin (c.inner + 1)) : j ∈ c.segmentsBetween lo hi
      ↔ j ∈ before ∨ j = i ∨ j ∈ rest := by
    rw [hsplit, List.mem_append, List.mem_cons]
  have hlater : ∀ j ∈ rest, i < j := (List.pairwise_cons.mp hrest).1
  have hi' : i ∈ c.segmentsBetween lo hi := (hmem i).mpr (Or.inr (Or.inl rfl))
  refine ⟨hn, i, hi', ?_, fun j hj hji => ?_⟩
  · rw [← hcount]
    refine congrArg encard (Subset.antisymm ?_ ?_)
    · refine asc.meetingsUpTo_subset leaves hmin hmax hi' fun j hj hji => ?_
      rw [List.mem_append, List.mem_singleton]
      rcases (hmem j).mp hj with hb | rfl | hr
      · exact Or.inl hb
      · exact Or.inr rfl
      · exact absurd hji (hlater j hr).not_ge
    · refine asc.crossingsOn_subset leaves (fun j hj => ?_) fun j hj => ?_
      · rw [List.mem_append, List.mem_singleton] at hj
        exact (hmem j).mpr (hj.imp_right Or.inl)
      · rw [List.mem_append, List.mem_singleton] at hj
        rcases hj with hb | rfl
        · exact (hbefore j hb i List.mem_cons_self).le
        · exact le_refl j
  · refine (encard_le_encard ?_).trans hone
    refine asc.meetingsUpTo_subset leaves hmin hmax hj fun k hk hkj => ?_
    rcases (hmem k).mp hk with hb | rfl | hr
    · exact hb
    · exact absurd hkj hji.not_ge
    · exact absurd (hkj.trans hji.le) (hlater k hr).not_ge

/-- A crossing is answered, or none is, or they are counted. -/
theorem Ascending.crossing_counted (asc : c.Ascending) {x₀ x₁ : ℝ}
    (h₀ : c.covers x₀ = true) (h₁ : c.covers x₁ = true)
    (leaves : ∀ i ∈ c.segmentsBetween (min x₀ x₁) (max x₀ x₁),
      ¬ c.Follows p i)
    (spaced : Spaced (c.meetings p (min x₀ x₁) (max x₀ x₁))) :
    (∃ r, c.crossing x₀ x₁ p = .ok r
        ∧ (c.meetings p (min x₀ x₁) (max x₀ x₁)).encard = 1)
      ∨ (c.crossing x₀ x₁ p
          = .error (.crossings 0 (min x₀ x₁) (max x₀ x₁))
        ∧ (c.meetings p (min x₀ x₁) (max x₀ x₁)).encard = 0)
      ∨ ∃ n, c.crossing x₀ x₁ p
          = .error (.crossings n (min x₀ x₁) (max x₀ x₁))
        ∧ c.CountsUpTo p (min x₀ x₁) (max x₀ x₁) n := by
  have hmin := xMin_le_min h₀ h₁
  have hmax := max_le_xMax h₀ h₁
  have hall := asc.crossingsBetween_eq leaves hmin hmax
  rw [crossingsBetween] at hall
  have hrun := collectCrossings_counts asc p (min x₀ x₁) (max x₀ x₁) lists_nil
    (Nat.zero_le 1) (c.pairwise_segmentsBetween _ _)
    (fun _ _ z hz => absurd hz (notMem_empty z))
    (by rwa [empty_union, hall])
  rw [empty_union, hall] at hrun
  rw [c.crossing_eq h₀ h₁]
  rcases hrun with
    ⟨ks, hrun, hone, hlists⟩ | ⟨before, i, rest, n, hsplit, hn, hrun, hbefore,
      hcount⟩
  · rw [hrun, hlists.encard]
    rcases ks with _ | ⟨r, _ | ⟨r', ks⟩⟩
    · exact Or.inr (Or.inl ⟨rfl, rfl⟩)
    · exact Or.inl ⟨r, rfl, rfl⟩
    · exact absurd hone (by simp)
  · rw [empty_union] at hbefore hcount
    rw [hrun]
    exact Or.inr (Or.inr ⟨n, rfl,
      asc.countsUpTo hmin hmax leaves hsplit hn hbefore hcount⟩)

theorem crossings_inj {n n' : ℕ} :
    (.error (.crossings n lo hi) : Except (Fault ℝ) ℝ)
      = .error (.crossings n' lo hi) ↔ n = n' := by
  rw [Except.error.injEq, Fault.crossings.injEq]
  exact and_iff_left ⟨rfl, rfl⟩

/-- **WHAT IS REPORTED**: where the curve follows the polynomial on no segment
    and no two meetings count as one, a crossing is answered exactly if there
    is one meeting, and none is reported exactly if there is none.  More than
    one are counted up to the end of the first segment up to whose end there
    is more than one; those behind it are not counted. -/
theorem crossing_counts (asc : c.Ascending) {x₀ x₁ : ℝ}
    (h₀ : c.covers x₀ = true) (h₁ : c.covers x₁ = true) (p : Cubic ℝ)
    (leaves : ∀ i ∈ c.segmentsBetween (min x₀ x₁) (max x₀ x₁),
      ¬ c.Follows p i)
    (spaced : Spaced (c.meetings p (min x₀ x₁) (max x₀ x₁))) :
    ((∃ r, c.crossing x₀ x₁ p = .ok r)
        ↔ (c.meetings p (min x₀ x₁) (max x₀ x₁)).encard = 1)
      ∧ ∀ n, c.crossing x₀ x₁ p
          = .error (.crossings n (min x₀ x₁) (max x₀ x₁))
        ↔ n = 0 ∧ (c.meetings p (min x₀ x₁) (max x₀ x₁)).encard = 0
          ∨ c.CountsUpTo p (min x₀ x₁) (max x₀ x₁) n := by
  rcases asc.crossing_counted h₀ h₁ leaves spaced with
    ⟨r, hrun, hcard⟩ | ⟨hrun, hcard⟩ | ⟨n, hrun, hcount⟩
  · rw [hrun, hcard]
    refine ⟨iff_of_true ⟨r, rfl⟩ rfl, fun n => iff_of_false nofun ?_⟩
    rintro (⟨-, hzero⟩ | hmany)
    · exact one_ne_zero hzero
    · exact absurd (hcard ▸ hmany.le) (by decide)
  · rw [hrun, hcard]
    refine ⟨iff_of_false nofun zero_ne_one, fun n => ?_⟩
    rw [crossings_inj]
    constructor
    · rintro rfl
      exact Or.inl ⟨rfl, rfl⟩
    · rintro (⟨rfl, -⟩ | hmany)
      · rfl
      · exact absurd (hcard ▸ hmany.le) (by decide)
  · rw [hrun]
    refine ⟨iff_of_false nofun fun hone => ?_, fun n' => ?_⟩
    · exact absurd (hone ▸ hcount.le) (by decide)
    rw [crossings_inj]
    constructor
    · rintro rfl
      exact Or.inr hcount
    · rintro (⟨-, hzero⟩ | hcount')
      · exact absurd (hzero ▸ hcount.le) (by decide)
      · exact hcount.unique hcount'

/-! ## A curve that is crossed three times -/

open Scalar in
/-- Up, down and up again. -/
def zigzag {α : Type} [Scalar α] : Curve α where
  family := .full
  inner := 2
  knots := #v[⟨0, 0, 0⟩, ⟨1, 1, 0⟩, ⟨2, 0, 0⟩, ⟨3, 1, 0⟩]

theorem ascending_zigzag : (zigzag : Curve ℝ).Ascending := by
  refine sorted_of_pairwise ?_
  show [(⟨0, 0, 0⟩ : Knot ℝ), ⟨1, 1, 0⟩, ⟨2, 0, 0⟩, ⟨3, 1, 0⟩].Pairwise _
  norm_num

/-- A step between two flat knots. -/
theorem eval_step (s : Segment ℝ) (hwidth : s.width = 1)
    (hleft : s.left.slope = 0) (hright : s.right.slope = 0) (z : ℝ) :
    s.eval .value z = s.left.y + (s.right.y - s.left.y)
      * (3 * (z - s.left.x) ^ 2 - 2 * (z - s.left.x) ^ 3) := by
  rw [s.eval_value_eq_localCubic (hwidth.trans_ne one_ne_zero), Cubic.eval_eq]
  show (s.left.slope + s.right.slope - 2 * ((s.right.y - s.left.y) / s.width))
      / s.width ^ 2 * (z - s.left.x) ^ 3
    + (3 * ((s.right.y - s.left.y) / s.width) - 2 * s.left.slope
      - s.right.slope) / s.width * (z - s.left.x) ^ 2
    + s.left.slope * (z - s.left.x) + s.left.y = _
  rw [hwidth, hleft, hright]
  ring

/-- A step is halfway up in its middle only. -/
theorem step_eq_half_iff {t : ℝ} (h₀ : 0 ≤ t) (h₁ : t ≤ 1) :
    3 * t ^ 2 - 2 * t ^ 3 = 1 / 2 ↔ t = 1 / 2 := by
  constructor
  · intro h
    have hprod : (t - 1 / 2) * (1 + 2 * (t * (1 - t))) = 0 := by
      linear_combination h
    have hpos : 0 ≤ t * (1 - t) := mul_nonneg h₀ (sub_nonneg.mpr h₁)
    exact sub_eq_zero.mp
      ((mul_eq_zero.mp hprod).resolve_right (by linarith))
  · rintro rfl
    norm_num

/-- Each segment of the curve is a step of width one, up or down. -/
theorem segment_zigzag (i : Fin 3) :
    ((zigzag : Curve ℝ).segment i).left.x = i.val
      ∧ ((zigzag : Curve ℝ).segment i).right.x = i.val + 1
      ∧ ((zigzag : Curve ℝ).segment i).left.slope = 0
      ∧ ((zigzag : Curve ℝ).segment i).right.slope = 0
      ∧ (((zigzag : Curve ℝ).segment i).left.y = 0
          ∧ ((zigzag : Curve ℝ).segment i).right.y = 1
        ∨ ((zigzag : Curve ℝ).segment i).left.y = 1
          ∧ ((zigzag : Curve ℝ).segment i).right.y = 0) := by
  match i with
  | 0 =>
      refine ⟨Nat.cast_zero.symm, ?_, rfl, rfl, Or.inl ⟨rfl, rfl⟩⟩
      show (1 : ℝ) = ((0 : ℕ) : ℝ) + 1
      norm_num
  | 1 =>
      refine ⟨Nat.cast_one.symm, ?_, rfl, rfl, Or.inr ⟨rfl, rfl⟩⟩
      show ((2 : ℕ) : ℝ) = ((1 : ℕ) : ℝ) + 1
      norm_num
  | 2 =>
      refine ⟨rfl, ?_, rfl, rfl, Or.inl ⟨rfl, rfl⟩⟩
      show ((3 : ℕ) : ℝ) = ((2 : ℕ) : ℝ) + 1
      norm_num

/-- The line halfway up is met in the middle of each segment only. -/
theorem meets_zigzag_iff (i : Fin 3) (h₀ : (i.val : ℝ) ≤ z)
    (h₁ : z ≤ i.val + 1) :
    (zigzag : Curve ℝ).Meets ⟨0, 0, 0, 1 / 2⟩ z ↔ z = i.val + 1 / 2 := by
  obtain ⟨hleft, hright, hs₀, hs₁, hends⟩ := segment_zigzag i
  have hwidth : ((zigzag : Curve ℝ).segment i).width = 1 := by
    show ((zigzag : Curve ℝ).segment i).right.x
      - ((zigzag : Curve ℝ).segment i).left.x = 1
    rw [hleft, hright, add_sub_cancel_left]
  have hheight : (⟨0, 0, 0, 1 / 2⟩ : Cubic ℝ).eval z = 1 / 2 := by
    rw [Cubic.eval_eq]
    ring
  have hmiddle : z = i.val + 1 / 2 ↔ z - i.val = 1 / 2 := by
    rw [sub_eq_iff_eq_add']
  rw [ascending_zigzag.meets_iff (i := i) (hleft.trans_le h₀)
    (h₁.trans_eq hright.symm), eval_step _ hwidth hs₀ hs₁, hheight, hleft,
    hmiddle, ← step_eq_half_iff (sub_nonneg.mpr h₀)
      (sub_le_iff_le_add'.mpr h₁)]
  rcases hends with ⟨hy₀, hy₁⟩ | ⟨hy₀, hy₁⟩
  · rw [hy₀, hy₁, sub_zero, one_mul, zero_add]
  · rw [hy₀, hy₁]
    constructor <;> intro h <;> linarith

theorem mem_meetings_zigzag :
    z ∈ (zigzag : Curve ℝ).meetings ⟨0, 0, 0, 1 / 2⟩ 0 3
      ↔ ∃ i : Fin 3, z = i.val + 1 / 2 := by
  constructor
  · rintro ⟨h₀, h₁, hmeets⟩
    let i : Fin 3 := (zigzag : Curve ℝ).segmentIndex z
    obtain ⟨hleft, hright, -⟩ := segment_zigzag i
    obtain ⟨hz₀, hz₁⟩ := ascending_zigzag.mem_segment h₀ h₁
    exact ⟨i, (meets_zigzag_iff i (hleft.symm.trans_le hz₀)
      (hz₁.trans_eq hright)).mp hmeets⟩
  · rintro ⟨i, rfl⟩
    have hi₀ : (0 : ℝ) ≤ i.val := Nat.cast_nonneg _
    have hi₂ : (i.val : ℝ) ≤ 2 := by exact_mod_cast Nat.le_of_lt_succ i.isLt
    exact ⟨by linarith, by linarith,
      (meets_zigzag_iff i (by linarith) (by linarith)).mpr rfl⟩

/-- The meetings up to the end of a segment are those on it and before it. -/
theorem mem_meetingsUpTo_zigzag (i : Fin 3) :
    z ∈ (zigzag : Curve ℝ).meetingsUpTo ⟨0, 0, 0, 1 / 2⟩ 0 3 i
      ↔ ∃ j : Fin 3, j ≤ i ∧ z = j.val + 1 / 2 := by
  obtain ⟨-, hright, -⟩ := segment_zigzag i
  have hupTo (j : Fin 3) : (j.val : ℝ) + 1 / 2 ≤ i.val + 1 ↔ j ≤ i := by
    constructor
    · intro h
      have hlt : (j.val : ℝ) < (i.val + 1 : ℕ) := by
        push_cast
        linarith
      exact Nat.lt_succ_iff.mp (Nat.cast_lt.mp hlt)
    · intro h
      have hle : (j.val : ℝ) ≤ i.val := Nat.cast_le.mpr h
      linarith
  constructor
  · rintro ⟨hz, hle⟩
    obtain ⟨j, rfl⟩ := mem_meetings_zigzag.mp hz
    exact ⟨j, (hupTo j).mp (hright ▸ hle), rfl⟩
  · rintro ⟨j, hj, rfl⟩
    exact ⟨mem_meetings_zigzag.mpr ⟨j, rfl⟩, hright ▸ (hupTo j).mpr hj⟩

theorem encard_meetingsUpTo_zigzag (i : Fin 3) :
    ((zigzag : Curve ℝ).meetingsUpTo ⟨0, 0, 0, 1 / 2⟩ 0 3 i).encard
      = (i.val + 1 : ℕ) := by
  have himage : (zigzag : Curve ℝ).meetingsUpTo ⟨0, 0, 0, 1 / 2⟩ 0 3 i
      = (fun j : Fin 3 => (j.val : ℝ) + 1 / 2) '' Iic i := by
    ext z
    rw [mem_meetingsUpTo_zigzag, mem_image]
    exact exists_congr fun j => and_congr_right fun _ => eq_comm
  have hinj : Function.Injective fun j : Fin 3 => (j.val : ℝ) + 1 / 2 :=
    fun j k h => Fin.ext (Nat.cast_injective (add_right_cancel h))
  rw [himage, hinj.encard_image, ← Finset.coe_Iic,
    encard_coe_eq_coe_finsetCard, Fin.card_Iic]

theorem meetings_zigzag :
    (zigzag : Curve ℝ).meetings ⟨0, 0, 0, 1 / 2⟩ 0 3
      = (zigzag : Curve ℝ).meetingsUpTo ⟨0, 0, 0, 1 / 2⟩ 0 3 (2 : Fin 3) := by
  ext z
  rw [mem_meetings_zigzag, mem_meetingsUpTo_zigzag]
  exact exists_congr fun i => (and_iff_right (Fin.le_last i)).symm

theorem spaced_zigzag :
    Spaced ((zigzag : Curve ℝ).meetings ⟨0, 0, 0, 1 / 2⟩ 0 3) := by
  intro y hy z hz hne
  obtain ⟨i, rfl⟩ := mem_meetings_zigzag.mp hy
  obtain ⟨j, rfl⟩ := mem_meetings_zigzag.mp hz
  have hapart : (1 : ℝ) ≤ |(i.val + 1 / 2 : ℝ) - (j.val + 1 / 2)| := by
    have hval : i.val ≠ j.val := fun h => hne (by rw [h])
    rw [add_sub_add_right_eq_sub, le_abs]
    rcases Nat.lt_or_gt_of_ne hval with hlt | hlt
    · have hle : (i.val : ℝ) + 1 ≤ j.val := by exact_mod_cast hlt
      exact Or.inr (by linarith)
    · have hle : (j.val : ℝ) + 1 ≤ i.val := by exact_mod_cast hlt
      exact Or.inl (by linarith)
  have hsmall : |(j.val + 1 / 2 : ℝ)| ≤ 3 := by
    have hj : (j.val : ℝ) ≤ 2 := by exact_mod_cast Nat.le_of_lt_succ j.isLt
    rw [abs_of_nonneg (by positivity)]
    linarith
  linarith

/-- Two of the three meetings are reported: the search stops at the end of the
    second segment. -/
theorem crossing_counts_zigzag :
    (∀ i ∈ (zigzag : Curve ℝ).segmentsBetween (min 0 3) (max 0 3),
        ¬ (zigzag : Curve ℝ).Follows ⟨0, 0, 0, 1 / 2⟩ i)
      ∧ Spaced ((zigzag : Curve ℝ).meetings ⟨0, 0, 0, 1 / 2⟩ (min 0 3)
        (max 0 3))
      ∧ (zigzag : Curve ℝ).crossing 0 3 ⟨0, 0, 0, 1 / 2⟩
        = .error (.crossings 2 (min 0 3) (max 0 3))
      ∧ ((zigzag : Curve ℝ).meetings ⟨0, 0, 0, 1 / 2⟩ (min 0 3)
        (max 0 3)).encard = 3 := by
  have hmin : min (0 : ℝ) 3 = 0 := min_eq_left (by norm_num)
  have hmax : max (0 : ℝ) 3 = 3 := max_eq_right (by norm_num)
  have leaves : ∀ i : Fin 3,
      ¬ (zigzag : Curve ℝ).Follows ⟨0, 0, 0, 1 / 2⟩ i := by
    intro i hfollows
    obtain ⟨hleft, hright, -⟩ := segment_zigzag i
    have hstart := (meets_zigzag_iff i (le_refl _) (by linarith)).mp
      (hleft ▸ hfollows _ (le_refl _) (by rw [hleft, hright]; linarith))
    linarith
  have hcounts : (zigzag : Curve ℝ).CountsUpTo ⟨0, 0, 0, 1 / 2⟩ 0 3 2 := by
    refine ⟨le_refl 2, (1 : Fin 3), mem_segmentsBetween _ |>.mpr ⟨?_, ?_⟩,
      encard_meetingsUpTo_zigzag 1, fun j _ hj => ?_⟩
    · exact ascending_zigzag.segmentIndex_le (Or.inr two_pos)
    · refine ascending_zigzag.le_segmentIndex (Or.inr ?_)
      show (1 : ℝ) ≤ 3
      norm_num
    · obtain rfl : j = (0 : Fin 3) := Fin.lt_one_iff j |>.mp hj
      exact (encard_meetingsUpTo_zigzag 0).le
  have hcovers : ∀ x : ℝ, 0 ≤ x → x ≤ 3 →
      (zigzag : Curve ℝ).covers x = true := fun x h₀ h₁ =>
    (covers_iff _ x).mpr ⟨h₀, h₁⟩
  have hspaced : Spaced ((zigzag : Curve ℝ).meetings ⟨0, 0, 0, 1 / 2⟩
      (min 0 3) (max 0 3)) := by
    rw [hmin, hmax]
    exact spaced_zigzag
  refine ⟨fun i _ => leaves i, hspaced, ?_, ?_⟩
  · refine ((crossing_counts ascending_zigzag (hcovers 0 (le_refl 0) ?_)
      (hcovers 3 ?_ (le_refl 3)) ⟨0, 0, 0, 1 / 2⟩ (fun i _ => leaves i)
      hspaced).2 2).mpr (Or.inr ?_)
    · norm_num
    · norm_num
    · rwa [hmin, hmax]
  · rw [hmin, hmax, meetings_zigzag, encard_meetingsUpTo_zigzag]
    rfl

end Curve

end PiecewiseCubic
