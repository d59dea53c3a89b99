import PiecewiseCubic.Proofs.Curve.Lookup
import PiecewiseCubic.Proofs.Polynomial.Cubic
import PiecewiseCubic.Curve.Crossing

/-! # Crossings are found

    On a segment the crossings with a polynomial are the roots of a cubic, so
    all of them are found, unless the segment is the polynomial.  A crossing
    is left out only if it is close to the one before it, so a single one that
    is kept stands for all that were found, and two that are kept differ. -/

namespace PiecewiseCubic

variable {p : Cubic ℝ} {lo hi z : ℝ}

/-! ## Polynomials -/

namespace Cubic

theorem eval_shift (p : Cubic ℝ) (origin s : ℝ) :
    (p.shift origin).eval s = p.eval (origin + s) := by
  show ((p.a * s + (3 * p.a * origin + p.b)) * s
    + ((3 * p.a * origin + 2 * p.b) * origin + p.c)) * s + p.eval origin = _
  rw [eval_eq, eval_eq]
  ring

theorem eval_sub (p q : Cubic ℝ) (x : ℝ) :
    (p.sub q).eval x = p.eval x - q.eval x := by
  show (((p.a - q.a) * x + (p.b - q.b)) * x + (p.c - q.c)) * x + (p.d - q.d)
    = ((p.a * x + p.b) * x + p.c) * x + p.d
      - (((q.a * x + q.b) * x + q.c) * x + q.d)
  ring

theorem Vanishes.eval_eq_zero (h : p.Vanishes) (x : ℝ) : p.eval x = 0 := by
  obtain ⟨ha, hb, hc, hd⟩ := h
  rw [eval_eq, ha, hb, hc, hd]
  ring

end Cubic

/-! ## One segment -/

namespace Segment

variable {s : Segment ℝ}

/-- How far a segment is above a polynomial, around its left knot. -/
noncomputable def difference (s : Segment ℝ) (p : Cubic ℝ) : Cubic ℝ :=
  s.localCubic.sub (p.shift s.left.x)

theorem eval_difference (hw : s.width ≠ 0) (p : Cubic ℝ) (x : ℝ) :
    (s.difference p).eval (x - s.left.x) = s.eval .value x - p.eval x := by
  rw [difference, Cubic.eval_sub, Cubic.eval_shift, add_sub_cancel,
    s.eval_value_eq_localCubic hw]

theorem eval_eq_of_vanishes (hw : s.width ≠ 0)
    (h : (s.difference p).Vanishes) (x : ℝ) :
    s.eval .value x = p.eval x := by
  rw [← sub_eq_zero, ← eval_difference hw]
  exact h.eval_eq_zero _

/-- The segment is not the polynomial and has its value at a position between
    two others. -/
def CrossesAt (s : Segment ℝ) (p : Cubic ℝ) (lo hi z : ℝ) : Prop :=
  ¬ (s.difference p).Vanishes ∧ max s.left.x lo ≤ z ∧ z ≤ min s.right.x hi
    ∧ s.eval .value z = p.eval z

/-- The roots of the difference that belong to the interval are moved to their
    places and left there. -/
theorem segmentCrossings_eq {roots : List ℝ}
    (hroots : Roots.cubic .infinite (s.difference p).a (s.difference p).b
      (s.difference p).c (s.difference p).d = .ok roots) (lo hi : ℝ) :
    Curve.segmentCrossings s p lo hi
      = .ok ((roots.filter fun r =>
          decide (max s.left.x lo - s.left.x ≤ r)
            && decide (r ≤ min s.right.x hi - s.left.x)).map
          (s.left.x + ·)) := by
  rw [← Exact.max_eq, ← Exact.min_eq]
  show (Roots.cubic .infinite (s.difference p).a (s.difference p).b
    (s.difference p).c (s.difference p).d >>= fun roots => _) = _
  rw [hroots]
  refine congrArg Except.ok (List.map_congr_left fun r hr => ?_)
  have hinside := (List.mem_filter.mp hr).2
  rw [Bool.and_eq_true, decide_eq_true_eq, decide_eq_true_eq] at hinside
  exact Exact.clamp_eq (sub_le_iff_le_add'.mp hinside.1)
    (le_sub_iff_add_le'.mp hinside.2)

/-- **ON A SEGMENT** all crossings are found, unless it is the polynomial. -/
theorem exists_segmentCrossings (hw : s.width ≠ 0) (p : Cubic ℝ)
    (lo hi : ℝ) :
    ∃ rs, Curve.segmentCrossings s p lo hi = .ok rs
      ∧ ∀ z, z ∈ rs ↔ s.CrossesAt p lo hi z := by
  obtain ⟨roots, hroots, hmem⟩ :=
    Roots.exists_cubic .infinite (s.difference p)
  refine ⟨_, segmentCrossings_eq hroots lo hi, fun z => ?_⟩
  simp only [List.mem_map, List.mem_filter, Bool.and_eq_true,
    decide_eq_true_eq, hmem, CrossesAt]
  constructor
  · rintro ⟨r, ⟨⟨hne, hroot⟩, h₀, h₁⟩, rfl⟩
    refine ⟨hne, by linarith, by linarith, ?_⟩
    rw [← sub_eq_zero, ← eval_difference hw, add_sub_cancel_left]
    exact hroot
  · rintro ⟨hne, h₀, h₁, hroot⟩
    refine ⟨z - s.left.x, ⟨⟨hne, ?_⟩, ?_, ?_⟩, add_sub_cancel _ _⟩
    · rw [eval_difference hw, hroot, sub_self]
    · exact sub_le_sub_right h₀ _
    · exact sub_le_sub_right h₁ _

end Segment

/-! ## Crossings that are kept -/

theorem isClose_iff {r s : ℝ} :
    Scalar.isClose r s = true ↔ |r - s| ≤ 1e-14 + 1e-12 * |s| := by
  show (true && decide (|r - s| ≤ 1e-14 + 1e-12 * |s|) || r == s) = true ↔ _
  rw [Bool.true_and, Bool.or_eq_true, decide_eq_true_eq, beq_iff_eq]
  refine or_iff_left_of_imp ?_
  rintro rfl
  rw [sub_self, abs_zero]
  positivity

theorem isClose_self (r : ℝ) : Scalar.isClose r r = true := by
  rw [isClose_iff, sub_self, abs_zero]
  positivity

namespace Curve

/-- What the crossings that are kept tell about those that were found: a
    single one is close to all of them, and of two or more at least two
    differ. -/
structure Kept (found : Set ℝ) (kept : List ℝ) : Prop where
  sound : ∀ r ∈ kept, r ∈ found
  complete : kept = [] → found = ∅
  lone : ∀ r, kept = [r] → ∀ z ∈ found, Scalar.isClose z r = true
  apart : 2 ≤ kept.length → ∃ y ∈ found, ∃ z ∈ found, y ≠ z

theorem kept_nil : Kept ∅ [] where
  sound := fun _ h => absurd h List.not_mem_nil
  complete := fun _ => rfl
  lone := fun _ h => absurd h.symm (List.cons_ne_nil _ _)
  apart := fun h => absurd h (by decide)

/-- **ONE MORE CROSSING** is kept or close to one that is. -/
theorem Kept.add {found : Set ℝ} {kept : List ℝ} (h : Kept found kept)
    (r : ℝ) : Kept (insert r found) (addCrossing kept r) := by
  cases kept with
  | nil =>
      rw [h.complete rfl]
      refine ⟨fun x hx => ?_, fun hnil => absurd hnil (List.cons_ne_nil _ _),
        fun x hx z hz => ?_, fun hlen => absurd hlen (Nat.not_succ_le_self 1)⟩
      · exact Or.inl (List.mem_singleton.mp hx)
      · obtain rfl := List.singleton_inj.mp hx
        obtain rfl := hz.resolve_right (Set.notMem_empty z)
        exact isClose_self z
  | cons last rest =>
      by_cases hclose : Scalar.isClose r last = true
      · have hadd : addCrossing (last :: rest) r = last :: rest :=
          if_pos hclose
        rw [hadd]
        refine ⟨fun x hx => Or.inr (h.sound x hx),
          fun hnil => absurd hnil (List.cons_ne_nil _ _),
          fun x hx z hz => ?_, fun hlen => ?_⟩
        · rcases hz with rfl | hz
          · rwa [← (List.cons.inj hx).1]
          · exact h.lone x hx z hz
        · obtain ⟨y, hy, z, hz, hne⟩ := h.apart hlen
          exact ⟨y, Or.inr hy, z, Or.inr hz, hne⟩
      · have hadd : addCrossing (last :: rest) r = r :: last :: rest :=
          if_neg hclose
        rw [hadd]
        refine ⟨fun x hx => ?_,
          fun hnil => absurd hnil (List.cons_ne_nil _ _),
          fun x hx => absurd (List.cons.inj hx).2 (List.cons_ne_nil _ _),
          fun _ => ?_⟩
        · exact (List.mem_cons.mp hx).imp_right (h.sound x)
        · refine ⟨r, Or.inl rfl, last,
            Or.inr (h.sound last List.mem_cons_self), ?_⟩
          rintro rfl
          exact hclose (isClose_self r)

/-- The first position of a list may be found before the others. -/
theorem union_mem_cons (found : Set ℝ) (r : ℝ) (rs : List ℝ) :
    found ∪ {z | z ∈ r :: rs} = insert r found ∪ {z | z ∈ rs} := by
  ext z
  simp only [Set.mem_union, Set.mem_ofPred_eq, List.mem_cons,
    Set.mem_insert_iff]
  tauto

theorem Kept.addAll {found : Set ℝ} {kept : List ℝ} (h : Kept found kept)
    (rs : List ℝ) :
    Kept (found ∪ {z | z ∈ rs}) (rs.foldl addCrossing kept) := by
  induction rs generalizing found kept with
  | nil => simpa using h
  | cons r rs ih =>
      rw [union_mem_cons]
      exact ih (h.add r)

/-! ## All segments -/

/-- The crossings on the given segments. -/
def crossingsOn (c : Curve ℝ) (p : Cubic ℝ) (lo hi : ℝ)
    (is : List (Fin (c.inner + 1))) : Set ℝ :=
  {z | ∃ i ∈ is, (c.segment i).CrossesAt p lo hi z}

theorem crossingsOn_cons (c : Curve ℝ) (i : Fin (c.inner + 1))
    (is : List (Fin (c.inner + 1))) :
    c.crossingsOn p lo hi (i :: is)
      = {z | (c.segment i).CrossesAt p lo hi z}
        ∪ c.crossingsOn p lo hi is := by
  ext z
  exact List.exists_mem_cons_iff _ _ _

theorem crossingsOn_nil (c : Curve ℝ) : c.crossingsOn p lo hi [] = ∅ := by
  ext z
  exact iff_of_false (fun ⟨i, hi, _⟩ => List.not_mem_nil hi)
    (Set.notMem_empty z)

variable {c : Curve ℝ}

/-- **ONE SEGMENT** adds its crossings, and the search stops if there is more
    than one then. -/
theorem collectCrossings_cons {i : Fin (c.inner + 1)} {rs : List ℝ}
    (hrs : segmentCrossings (c.segment i) p lo hi = .ok rs) (kept : List ℝ)
    (is : List (Fin (c.inner + 1))) :
    c.collectCrossings p lo hi kept (i :: is)
      = if 1 < (rs.foldl addCrossing kept).length then
          .error (.crossings (rs.foldl addCrossing kept).length lo hi)
        else c.collectCrossings p lo hi (rs.foldl addCrossing kept) is := by
  rw [collectCrossings, hrs]

/-- **ALONG THE SEGMENTS** one crossing at most is kept, or there are two
    that differ and the search stops. -/
theorem collectCrossings_cases (asc : c.Ascending) (p : Cubic ℝ) (lo hi : ℝ)
    {found : Set ℝ} {kept : List ℝ} (h : Kept found kept)
    (hone : kept.length ≤ 1) (is : List (Fin (c.inner + 1))) :
    (∃ ks, c.collectCrossings p lo hi kept is = .ok ks ∧ ks.length ≤ 1
        ∧ Kept (found ∪ c.crossingsOn p lo hi is) ks)
      ∨ ∃ n, 2 ≤ n
        ∧ c.collectCrossings p lo hi kept is = .error (.crossings n lo hi)
        ∧ ∃ y ∈ found ∪ c.crossingsOn p lo hi is,
          ∃ z ∈ found ∪ c.crossingsOn p lo hi is, y ≠ z := by
  induction is generalizing found kept with
  | nil =>
      refine Or.inl ⟨kept, rfl, hone, ?_⟩
      rwa [crossingsOn_nil, Set.union_empty]
  | cons i is ih =>
      -- what this segment has is found before the search goes on
      obtain ⟨rs, hrs, hmem⟩ :=
        Segment.exists_segmentCrossings (asc.width_ne_zero i) p lo hi
      have hnext := h.addAll rs
      have hset : {z | z ∈ rs} = {z | (c.segment i).CrossesAt p lo hi z} :=
        Set.ext hmem
      rw [hset] at hnext
      rw [collectCrossings_cons hrs, crossingsOn_cons, ← Set.union_assoc]
      split_ifs with hmany
      · obtain ⟨y, hy, z, hz, hne⟩ := hnext.apart hmany
        exact Or.inr ⟨_, hmany, rfl, y, Or.inl hy, z, Or.inl hz, hne⟩
      · exact ih hnext (not_lt.mp hmany)

/-- The positions found between two others. -/
def crossingsBetween (c : Curve ℝ) (p : Cubic ℝ) (lo hi : ℝ) : Set ℝ :=
  c.crossingsOn p lo hi (c.segmentsBetween lo hi)

/-- What becomes of the crossings that are kept. -/
def onlyCrossing {α : Type} (lo hi : α) :
    Except (Fault α) (List α) → Except (Fault α) α
  | .error fault => .error fault
  | .ok [r] => .ok r
  | .ok kept => .error (.crossings kept.length lo hi)

theorem crossing_eq (c : Curve ℝ) {x₀ x₁ : ℝ} (h₀ : c.covers x₀ = true)
    (h₁ : c.covers x₁ = true) (p : Cubic ℝ) :
    c.crossing x₀ x₁ p
      = onlyCrossing (min x₀ x₁) (max x₀ x₁)
        (c.collectCrossings p (min x₀ x₁) (max x₀ x₁) []
          (c.segmentsBetween (min x₀ x₁) (max x₀ x₁))) := by
  rw [crossing, h₀, h₁, Bool.and_true, if_pos rfl]
  rcases lt_or_ge x₁ x₀ with hlt | hle
  · rw [if_pos hlt, min_eq_right hlt.le, max_eq_left hlt.le]
    rfl
  · rw [if_neg (not_lt.mpr hle), min_eq_left hle, max_eq_right hle]
    rfl

/-- **WHAT THE SEARCH ANSWERS** between two positions in the range: a crossing
    that is close to all that are found, that there is none, or that there
    are two at least. -/
theorem crossing_cases (asc : c.Ascending) {x₀ x₁ : ℝ}
    (h₀ : c.covers x₀ = true) (h₁ : c.covers x₁ = true) (p : Cubic ℝ) :
    (∃ r ∈ c.crossingsBetween p (min x₀ x₁) (max x₀ x₁),
        c.crossing x₀ x₁ p = .ok r
          ∧ ∀ z ∈ c.crossingsBetween p (min x₀ x₁) (max x₀ x₁),
            Scalar.isClose z r = true)
      ∨ (c.crossing x₀ x₁ p
          = .error (.crossings 0 (min x₀ x₁) (max x₀ x₁))
        ∧ c.crossingsBetween p (min x₀ x₁) (max x₀ x₁) = ∅)
      ∨ ∃ n, 2 ≤ n ∧ c.crossing x₀ x₁ p
          = .error (.crossings n (min x₀ x₁) (max x₀ x₁))
        ∧ ∃ y ∈ c.crossingsBetween p (min x₀ x₁) (max x₀ x₁),
          ∃ z ∈ c.crossingsBetween p (min x₀ x₁) (max x₀ x₁), y ≠ z := by
  rw [c.crossing_eq h₀ h₁, crossingsBetween]
  rcases collectCrossings_cases asc p (min x₀ x₁) (max x₀ x₁) kept_nil
      (Nat.zero_le 1) (c.segmentsBetween (min x₀ x₁) (max x₀ x₁)) with
    ⟨ks, hrun, hone, hkept⟩ | ⟨n, hn, hrun, hapart⟩
  · rw [Set.empty_union] at hkept
    rw [hrun]
    match ks, hone with
    | [], _ => exact Or.inr (Or.inl ⟨rfl, hkept.complete rfl⟩)
    | [r], _ =>
        exact Or.inl ⟨r, hkept.sound r List.mem_cons_self, rfl,
          hkept.lone r rfl⟩
    | _ :: _ :: _, hone => exact absurd hone (by simp)
  · rw [Set.empty_union] at hapart
    rw [hrun]
    exact Or.inr (Or.inr ⟨n, hn, rfl, hapart⟩)

end Curve

end PiecewiseCubic
