import PiecewiseCubic.Proofs.Curve.Pieces
import PiecewiseCubic.Proofs.Curve.Trend

/-! # What a monotonicity says about the slope

    The monotonicity of an interval is put together from those of its pieces,
    the two continuations and the parts of the segments.  Each of these holds
    of the slope there, so what is answered for the interval holds of the
    derivative.  Where the derivative keeps its sign, the answer is that
    sign's. -/

namespace PiecewiseCubic

open Set

/-! ## The whole and its parts -/

namespace Monotonicity

/-- What is constant or runs in the direction of a number. -/
def Along (m : Monotonicity) (sigma : ℝ) : Prop :=
  m = .constant ∨ m = .increasing ∧ 0 < sigma ∨ m = .decreasing ∧ sigma < 0

/-- What the monotonicity of a whole says about those of its parts. -/
def Summarises (ms : List Monotonicity) : Monotonicity → Prop
  | .constant => ∀ m ∈ ms, m = .constant
  | .increasing => .increasing ∈ ms ∧ ∀ m ∈ ms, m = .constant ∨ m = .increasing
  | .decreasing => .decreasing ∈ ms ∧ ∀ m ∈ ms, m = .constant ∨ m = .decreasing
  | .mixed => .mixed ∈ ms ∨ .increasing ∈ ms ∧ .decreasing ∈ ms

/-- Two parts may be combined first. -/
theorem Summarises.of_combine {r s m : Monotonicity} {ms : List Monotonicity}
    (h : m.Summarises (combine r s :: ms)) : m.Summarises (r :: s :: ms) := by
  cases r <;> cases s <;> cases m <;>
    simp [Summarises, combine] at h ⊢ <;> tauto

/-- **THE WHOLE SUMMARISES ITS PARTS**, those behind a mixed one unread. -/
theorem summarises_reduce (whole : Monotonicity) (ms : List Monotonicity) :
    (reduce whole ms).Summarises (whole :: ms) := by
  induction ms generalizing whole with
  | nil => cases whole <;> simp [reduce, Summarises]
  | cons m ms ih =>
      refine Summarises.of_combine ?_
      rw [reduce]
      split_ifs with hmixed
      · rw [hmixed]
        exact Or.inl List.mem_cons_self
      · exact ih (combine whole m)

end Monotonicity

/-! ## The pieces of an interval -/

namespace Curve

variable {c : Curve ℝ} {lo hi : ℝ}

/-- A continuation or a segment. -/
inductive Piece (c : Curve ℝ) where
  | before
  | on (i : Fin (c.inner + 1))
  | behind

namespace Piece

/-- Where the part of a piece between two positions begins. -/
def start (lo : ℝ) : c.Piece → ℝ
  | .before => lo
  | .on i => max lo (c.segment i).left.x
  | .behind => max lo c.xMax

/-- Where the part of a piece between two positions ends. -/
def stop (hi : ℝ) : c.Piece → ℝ
  | .before => min hi c.xMin
  | .on i => min hi (c.segment i).right.x
  | .behind => hi

/-- There is a part of the piece between two positions. -/
def Covered (lo hi : ℝ) (q : c.Piece) : Prop := q.start lo < q.stop hi

/-- The part of a piece between two positions without its margins. -/
def core (lo hi : ℝ) (q : c.Piece) : Set ℝ :=
  match q with
  | .on _ => Segment.core (q.start lo) (q.stop hi)
  | .before | .behind => Icc (q.start lo) (q.stop hi)

/-- The slope on a piece counts as none. -/
def Negligible : c.Piece → Prop
  | .before => |c.leftSlope| ≤ 1e-20
  | .on i => |(c.segment i).slopeCoefficients.1| < 1e-20
      ∧ |(c.segment i).slopeCoefficients.2.1| < 1e-20
      ∧ |(c.segment i).slopeCoefficients.2.2| < 1e-20
  | .behind => |c.rightSlope| ≤ 1e-20

/-- The monotonicity of the part of a piece between two positions. -/
noncomputable def trend (lo hi : ℝ) (q : c.Piece) : Monotonicity :=
  match q with
  | .before => .ofSlope c.leftSlope negligible
  | .on i => (c.segment i).trend (q.start lo) (q.stop hi)
  | .behind => .ofSlope c.rightSlope negligible

theorem le_start (q : c.Piece) : lo ≤ q.start lo := by
  cases q with
  | before => exact le_refl lo
  | on i => exact le_max_left _ _
  | behind => exact le_max_left _ _

theorem stop_le (q : c.Piece) : q.stop hi ≤ hi := by
  cases q with
  | before => exact min_le_left _ _
  | on i => exact min_le_left _ _
  | behind => exact le_refl hi

end Piece

namespace Ascending

variable (asc : c.Ascending)

include asc

theorem deriv_eq (x : ℝ) :
    deriv (c.continued .value) x = c.continued .first x :=
  (asc.hasDerivAt_continued x).deriv

/-- The part of a segment lies in the range, whatever the two positions. -/
theorem partTrend_eq (i : Fin (c.inner + 1)) :
    c.partTrend? (max lo c.xMin) (min hi c.xMax) i
      = if max lo (c.segment i).left.x < min hi (c.segment i).right.x then
          some ((c.segment i).trend (max lo (c.segment i).left.x)
            (min hi (c.segment i).right.x))
        else none := by
  obtain ⟨hmin, hmax⟩ := asc.segment_mem i
  rw [partTrend?, Exact.max_eq, Exact.min_eq, max_assoc, max_eq_right hmin,
    min_assoc, min_eq_right hmax]

theorem mem_partTrends {m : Monotonicity} :
    (m ∈ if max lo c.xMin < min hi c.xMax then
        (c.segmentsBetween (max lo c.xMin) (min hi c.xMax)).filterMap
          (c.partTrend? (max lo c.xMin) (min hi c.xMax))
      else [])
      ↔ ∃ i, (Piece.on i : c.Piece).Covered lo hi
        ∧ (Piece.on i : c.Piece).trend lo hi = m := by
  rw [asc.sorted.partTrends_eq, List.mem_filterMap]
  refine exists_congr fun i => ?_
  rw [asc.partTrend_eq, and_iff_right (List.mem_finRange i),
    Option.ite_none_right_eq_some, Option.some.injEq]
  exact Iff.rfl

/-- **THE PIECES** of an interval are those with a part in it. -/
theorem mem_pieceTrends (hlt : lo < hi) {m : Monotonicity} :
    m ∈ c.pieceTrends lo hi
      ↔ ∃ q : c.Piece, q.Covered lo hi ∧ q.trend lo hi = m := by
  have hbefore : (Piece.before : c.Piece).Covered lo hi ↔ lo < c.xMin :=
    lt_min_iff.trans (and_iff_right hlt)
  have hbehind : (Piece.behind : c.Piece).Covered lo hi ↔ c.xMax < hi :=
    max_lt_iff.trans (and_iff_right hlt)
  have hsingle : ∀ {p : Prop} [Decidable p] {r : Monotonicity},
      (m ∈ if p then [r] else []) ↔ p ∧ r = m := by
    intro p _ r
    split_ifs with hp
    · rw [List.mem_singleton, and_iff_right hp, eq_comm]
    · simp only [List.not_mem_nil, hp, false_and]
  rw [pieceTrends, Exact.max_eq, Exact.min_eq, List.mem_append,
    List.mem_append, hsingle, hsingle, ← hbefore, ← hbehind,
    asc.mem_partTrends]
  constructor
  · rintro ((h | ⟨i, h⟩) | h)
    · exact ⟨.before, h⟩
    · exact ⟨.on i, h⟩
    · exact ⟨.behind, h⟩
  · rintro ⟨_ | i | _, h⟩
    · exact Or.inl (Or.inl h)
    · exact Or.inl (Or.inr ⟨i, h⟩)
    · exact Or.inr h

/-- **ONE PIECE**: what is answered for it holds of the derivative. -/
theorem verdict_piece {q : c.Piece} (h : q.Covered lo hi) :
    (q.trend lo hi).Verdict (deriv (c.continued .value)) (Icc lo hi)
      (q.core lo hi) q.Negligible := by
  have hle : q.start lo ≤ q.stop hi := le_of_lt h
  have hfun : deriv (c.continued .value) = c.continued .first :=
    funext asc.deriv_eq
  suffices hpart : (q.trend lo hi).Verdict (c.continued .first)
      (Icc (q.start lo) (q.stop hi)) (q.core lo hi) q.Negligible by
    rw [hfun]
    exact hpart.transfer id id
      (fun x hx => ⟨Icc_subset_Icc q.le_start q.stop_le hx, rfl⟩)
      fun x hx => ⟨hx, rfl⟩
  cases q with
  | before =>
      refine Monotonicity.verdict_ofSlope Segment.negligible_pos.le
        (left_mem_Icc.mpr hle) (fun x hx => ?_) subset_rfl
      exact (asc.isPiece_left x (hx.2.trans (min_le_right _ _))).2.1
  | on i =>
      have hpiece : ∀ x ∈ Icc ((Piece.on i : c.Piece).start lo)
          ((Piece.on i : c.Piece).stop hi),
          c.continued .first x = (c.segment i).eval .first x := fun x hx =>
        (asc.isPiece_segment i x ⟨(le_max_right _ _).trans hx.1,
          hx.2.trans (min_le_right _ _)⟩).2.1
      exact ((c.segment i).verdict_trend (asc.width_ne_zero i) h).transfer
        id id (fun x hx => ⟨hx, hpiece x hx⟩)
        fun x hx => ⟨hx, hpiece x (Segment.core_subset hle hx)⟩
  | behind =>
      refine Monotonicity.verdict_ofSlope Segment.negligible_pos.le
        (right_mem_Icc.mpr hle) (fun x hx => ?_) subset_rfl
      exact (asc.isPiece_right x ((le_max_right _ _).trans hx.1)).2.1

end Ascending

/-- What the monotonicity between two positions says about the derivative of
    the curve with its continuations.  A mixed curve takes both signs there.
    A direction is a sign that it takes there, and does not take the other
    one on the core of any piece, but for those whose slope counts as none.
    On a constant one the slope of each piece counts as none. -/
def Justified (c : Curve ℝ) (lo hi : ℝ) : Monotonicity → Prop
  | .mixed => (∃ x ∈ Icc lo hi, 0 < deriv (c.continued .value) x)
      ∧ ∃ x ∈ Icc lo hi, deriv (c.continued .value) x < 0
  | .increasing => (∃ x ∈ Icc lo hi, 0 < deriv (c.continued .value) x)
      ∧ ∀ q : c.Piece, q.Covered lo hi → q.Negligible
        ∨ ∀ x ∈ q.core lo hi, 0 ≤ deriv (c.continued .value) x
  | .decreasing => (∃ x ∈ Icc lo hi, deriv (c.continued .value) x < 0)
      ∧ ∀ q : c.Piece, q.Covered lo hi → q.Negligible
        ∨ ∀ x ∈ q.core lo hi, deriv (c.continued .value) x ≤ 0
  | .constant => ∀ q : c.Piece, q.Covered lo hi → q.Negligible

section Pieces

variable (asc : c.Ascending) (hlt : lo < hi) {m : Monotonicity}

include asc hlt

/-- Each verdict is that of a piece. -/
theorem Ascending.exists_verdict (hne : m ≠ .constant)
    (hm : m ∈ Monotonicity.constant :: c.pieceTrends lo hi) :
    ∃ q : c.Piece, m.Verdict (deriv (c.continued .value)) (Icc lo hi)
      (q.core lo hi) q.Negligible := by
  obtain ⟨q, hq, rfl⟩ := (asc.mem_pieceTrends hlt).mp
    ((List.mem_cons.mp hm).resolve_left hne)
  exact ⟨q, asc.verdict_piece hq⟩

/-- Each piece has a verdict. -/
theorem Ascending.negligible_or_verdict
    (hall : ∀ r ∈ Monotonicity.constant :: c.pieceTrends lo hi,
      r = .constant ∨ r = m) {q : c.Piece} (hq : q.Covered lo hi) :
    q.Negligible ∨ m.Verdict (deriv (c.continued .value)) (Icc lo hi)
      (q.core lo hi) q.Negligible := by
  have hverdict := asc.verdict_piece hq
  have hmem : q.trend lo hi ∈ c.pieceTrends lo hi :=
    (asc.mem_pieceTrends hlt).mpr ⟨q, hq, rfl⟩
  rcases hall _ (List.mem_cons_of_mem _ hmem) with heq | heq
  · rw [heq] at hverdict
    exact Or.inl hverdict
  · rw [heq] at hverdict
    exact Or.inr hverdict

/-- **THE WHOLE INTERVAL**: the verdicts on its pieces add up to one. -/
theorem Ascending.justified_reduce :
    c.Justified lo hi
      (Monotonicity.reduce .constant (c.pieceTrends lo hi)) := by
  have hsum := Monotonicity.summarises_reduce .constant (c.pieceTrends lo hi)
  generalize Monotonicity.reduce .constant (c.pieceTrends lo hi) = m at hsum ⊢
  cases m with
  | mixed =>
      rcases hsum with hmixed | ⟨hinc, hdec⟩
      · obtain ⟨q, hverdict⟩ := asc.exists_verdict hlt (by decide) hmixed
        exact hverdict
      · obtain ⟨q, hrises, -⟩ := asc.exists_verdict hlt (by decide) hinc
        obtain ⟨r, hfalls, -⟩ := asc.exists_verdict hlt (by decide) hdec
        exact ⟨hrises, hfalls⟩
  | increasing =>
      obtain ⟨q, hrises, -⟩ := asc.exists_verdict hlt (by decide) hsum.1
      exact ⟨hrises, fun q hq =>
        (asc.negligible_or_verdict hlt hsum.2 hq).imp_right And.right⟩
  | decreasing =>
      obtain ⟨q, hfalls, -⟩ := asc.exists_verdict hlt (by decide) hsum.1
      exact ⟨hfalls, fun q hq =>
        (asc.negligible_or_verdict hlt hsum.2 hq).imp_right And.right⟩
  | constant =>
      intro q hq
      have hflat : q.Negligible ∨ q.Negligible :=
        asc.negligible_or_verdict (m := .constant) hlt
          (fun r hr => Or.inl (hsum r hr)) hq
      exact or_self_iff.mp hflat

end Pieces

/-- What is justified where the derivative keeps its sign has that sign. -/
theorem Justified.along {sigma : ℝ} (hs : sigma ≠ 0) {m : Monotonicity}
    (h : c.Justified lo hi m)
    (keeps : ∀ x ∈ Icc lo hi, 0 ≤ sigma * deriv (c.continued .value) x) :
    m.Along sigma := by
  have hrises : (∃ x ∈ Icc lo hi, 0 < deriv (c.continued .value) x) →
      0 < sigma := fun ⟨x, hx, hpos⟩ =>
    (nonneg_of_mul_nonneg_left (keeps x hx) hpos).lt_of_ne hs.symm
  have hfalls : (∃ x ∈ Icc lo hi, deriv (c.continued .value) x < 0) →
      sigma < 0 := fun ⟨x, hx, hneg⟩ =>
    (nonpos_of_mul_nonneg_left (keeps x hx) hneg).lt_of_ne hs
  cases m with
  | mixed => exact absurd (hrises h.1) (hfalls h.2).not_gt
  | increasing => exact Or.inr (Or.inl ⟨rfl, hrises h.1⟩)
  | decreasing => exact Or.inr (Or.inr ⟨rfl, hfalls h.1⟩)
  | constant => exact Or.inl rfl

section Trend

variable {x₀ x₁ : ℝ}

/-- Over two positions that differ, in the range or with the continuations,
    the pieces between them are put together. -/
theorem trend_eq (hne : x₀ ≠ x₁) {extrapolate : Bool}
    (admitted : extrapolate = true
      ∨ c.covers x₀ = true ∧ c.covers x₁ = true) :
    c.trend x₀ x₁ extrapolate
      = .ok (Monotonicity.reduce .constant
        (c.pieceTrends (min x₀ x₁) (max x₀ x₁))) := by
  rcases hne.lt_or_gt with hlt | hgt
  · rw [min_eq_left hlt.le, max_eq_right hlt.le]
    exact trend_of_lt hlt admitted
  · rw [min_eq_right hgt.le, max_eq_left hgt.le, trend_swap hgt]
    exact trend_of_lt hgt (admitted.imp_right And.symm)

/-- **THE MONOTONICITY** over an interval where the slope keeps its sign is
    that sign's, or constant. -/
theorem along_trend (asc : c.Ascending) {sigma : ℝ} (hs : sigma ≠ 0)
    (hne : x₀ ≠ x₁)
    (h : ∀ x, min x₀ x₁ ≤ x → x ≤ max x₀ x₁ →
      0 ≤ sigma * c.continued .first x) :
    ∃ m, c.trend x₀ x₁ true = .ok m ∧ m.Along sigma := by
  refine ⟨_, trend_eq hne (Or.inl rfl),
    (asc.justified_reduce (min_lt_max.mpr hne)).along hs fun x hx => ?_⟩
  rw [asc.deriv_eq]
  exact h x hx.1 hx.2

/-- **THE MONOTONICITY IS JUSTIFIED**: over any two positions that differ, in
    the range or with the continuations, the answer holds of the
    derivative. -/
theorem trend_justified (asc : c.Ascending) (hne : x₀ ≠ x₁)
    (extrapolate : Bool)
    (admitted : extrapolate = true
      ∨ c.covers x₀ = true ∧ c.covers x₁ = true) :
    ∃ m, c.trend x₀ x₁ extrapolate = .ok m
      ∧ c.Justified (min x₀ x₁) (max x₀ x₁) m :=
  ⟨_, trend_eq hne admitted,
    asc.justified_reduce (min_lt_max.mpr hne)⟩

end Trend

/-! ## A parabola -/

open Scalar in
/-- It rises up to the middle between its knots and falls behind it. -/
def arch {α : Type} [Scalar α] : Curve α where
  family := .full
  inner := 0
  knots := #v[⟨0, 0, 1⟩, ⟨1, 0, -1⟩]

theorem ascending_arch : (arch : Curve ℝ).Ascending := by
  refine sorted_of_pairwise ?_
  show [(⟨0, 0, 1⟩ : Knot ℝ), ⟨1, 0, -1⟩].Pairwise _
  simp

theorem localCubic_arch :
    ((arch : Curve ℝ).segment (0 : Fin 1)).localCubic = ⟨0, -1, 1, 0⟩ := by
  have ha : ((1 : ℝ) + -1 - 2 * ((0 - 0) / (1 - 0))) / (1 - 0) ^ 2 = 0 := by
    norm_num
  have hb : ((3 : ℝ) * ((0 - 0) / (1 - 0)) - 2 * 1 - -1) / (1 - 0) = -1 := by
    norm_num
  exact congrArg₂ (fun a b => Cubic.mk a b 1 0) ha hb

theorem deriv_arch {x : ℝ} :
    (x ≤ 0 → deriv ((arch : Curve ℝ).continued .value) x = 1)
      ∧ (0 ≤ x → x ≤ 1 →
        deriv ((arch : Curve ℝ).continued .value) x = 1 - 2 * x) := by
  rw [ascending_arch.deriv_eq]
  constructor
  · intro hx
    rw [(ascending_arch.isPiece_left x hx).2.1, ascending_arch.leftSlope_eq]
    rfl
  · intro h₀ h₁
    refine (ascending_arch.isPiece_segment (0 : Fin 1) x
      ⟨h₀, h₁⟩).2.1.trans ?_
    refine (Segment.eval_first_eq_localCubic _
      (ascending_arch.width_ne_zero (0 : Fin 1)) x).trans ?_
    rw [localCubic_arch]
    show (3 * 0 * (x - 0) + 2 * -1) * (x - 0) + 1 = 1 - 2 * x
    ring

/-- Over its whole range the parabola is mixed, and before it rises. -/
theorem trend_justified_arch :
    (arch : Curve ℝ).trend 1 0 false = .ok .mixed
      ∧ (arch : Curve ℝ).trend (-1) 0 true = .ok .increasing := by
  have hsteep : ¬ |(1 : ℝ)| ≤ 1e-20 := by norm_num
  constructor
  · have hcovers : ∀ x : ℝ, 0 ≤ x → x ≤ 1 →
        (arch : Curve ℝ).covers x = true := fun x h₀ h₁ =>
      (covers_iff _ x).mpr ⟨h₀, h₁⟩
    obtain ⟨m, hm, hj⟩ := trend_justified ascending_arch
      (one_ne_zero : (1 : ℝ) ≠ 0) false
      (Or.inr ⟨hcovers 1 zero_le_one (le_refl 1),
        hcovers 0 (le_refl 0) zero_le_one⟩)
    rw [min_eq_right zero_le_one, max_eq_left zero_le_one] at hj
    have hpiece : (Piece.on (0 : Fin 1) : (arch : Curve ℝ).Piece).Covered
        0 1 := by
      show max (0 : ℝ) 0 < min 1 1
      norm_num
    have hflat :
        ¬ (Piece.on (0 : Fin 1) : (arch : Curve ℝ).Piece).Negligible := by
      rintro ⟨-, -, hc⟩
      replace hc : |((arch : Curve ℝ).segment (0 : Fin 1)).localCubic.c|
        < 1e-20 := hc
      rw [localCubic_arch] at hc
      exact hsteep hc.le
    have hcore : ∀ x : ℝ, 1 / 4 ≤ x → x ≤ 3 / 4 →
        x ∈ (Piece.on (0 : Fin 1) : (arch : Curve ℝ).Piece).core 0 1 := by
      intro x h₀ h₁
      have hstart : max (0 : ℝ) 0 = 0 := max_self 0
      have hstop : min (1 : ℝ) 1 = 1 := min_self 1
      show x ∈ Segment.core (max 0 0) (min 1 1)
      rw [hstart, hstop]
      constructor <;> linarith
    cases m with
    | mixed => exact hm
    | increasing =>
        have hx := (hj.2 _ hpiece).resolve_left hflat (3 / 4)
          (hcore _ (by norm_num) (le_refl _))
        rw [deriv_arch.2 (by norm_num) (by norm_num)] at hx
        norm_num at hx
    | decreasing =>
        have hx := (hj.2 _ hpiece).resolve_left hflat (1 / 4)
          (hcore _ (le_refl _) (by norm_num))
        rw [deriv_arch.2 (by norm_num) (by norm_num)] at hx
        norm_num at hx
    | constant => exact absurd (hj _ hpiece) hflat
  · obtain ⟨m, hm, hj⟩ := trend_justified ascending_arch
      (show (-1 : ℝ) ≠ 0 by norm_num) true (Or.inl rfl)
    have hle : (-1 : ℝ) ≤ 0 := by norm_num
    rw [min_eq_left hle, max_eq_right hle] at hj
    have hrises : ∀ x ∈ Icc (-1 : ℝ) 0,
        0 < deriv ((arch : Curve ℝ).continued .value) x := by
      intro x hx
      rw [deriv_arch.1 hx.2]
      exact one_pos
    cases m with
    | mixed =>
        obtain ⟨x, hx, hfalls⟩ := hj.2
        exact absurd hfalls (hrises x hx).not_gt
    | increasing => exact hm
    | decreasing =>
        obtain ⟨x, hx, hfalls⟩ := hj.1
        exact absurd hfalls (hrises x hx).not_gt
    | constant =>
        have hcovered : (Piece.before : (arch : Curve ℝ).Piece).Covered
            (-1) 0 := by
          show (-1 : ℝ) < min 0 0
          norm_num
        have hflat := hj _ hcovered
        rw [Piece.Negligible, ascending_arch.leftSlope_eq] at hflat
        exact absurd hflat hsteep

end Curve

end PiecewiseCubic
