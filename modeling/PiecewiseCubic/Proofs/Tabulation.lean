import PiecewiseCubic.Proofs.Curve.Fit
import PiecewiseCubic.Proofs.Curve.Table
import PiecewiseCubic.Tabulation

/-! # Tables that stay in the range

    Where the settings do not let the curve be continued, both ends of the
    range that is asked for are moved into that of the curve.  If the two
    ranges overlap the table lies in that of the curve and is complete.  If
    they do not, both ends are moved to one place, and the table, whose
    intervals are empty then, is refused without a line. -/

namespace PiecewiseCubic.Tabulation

open CommandLine (Request)

variable {s : Settings} {r : Request ℝ} {c : Curve ℝ} {n : ℤ}

/-- The range that is asked for, an end that is not given being that of the
    curve, has more than one position in common with that of the curve. -/
def Overlaps (r : Request ℝ) (c : Curve ℝ) : Prop :=
  c.xMin < max (r.x0.getD c.xMin) (r.x1.getD c.xMax)
    ∧ min (r.x0.getD c.xMin) (r.x1.getD c.xMax) < c.xMax

/-- **MOVED TO ONE PLACE** are the ends of a range that does not overlap that
    of the curve. -/
theorem clamped_eq_iff (asc : c.Ascending)
    (apart : ∀ a b, r.x0 = some a → r.x1 = some b → a ≠ b) :
    Scalar.clamp (r.x0.getD c.xMin) c.xMin c.xMax
        = Scalar.clamp (r.x1.getD c.xMax) c.xMin c.xMax
      ↔ ¬ Overlaps r c := by
  have hrange := asc.xMin_lt_xMax
  rw [Overlaps, not_and_or, not_lt, not_lt]
  rcases eq_or_ne (r.x0.getD c.xMin) (r.x1.getD c.xMax) with heq | hne
  · -- one end at least is left out, so both are at one end of the curve
    rw [heq, max_self, min_self]
    refine iff_of_true rfl ?_
    cases h₀ : r.x0 with
    | none =>
        rw [h₀, Option.getD_none] at heq
        exact Or.inl heq.ge
    | some a =>
        cases h₁ : r.x1 with
        | none => exact Or.inr (le_refl _)
        | some b =>
            rw [h₀, h₁] at heq
            exact absurd heq (apart a b h₀ h₁)
  · exact Exact.clamp_eq_clamp_iff hrange hne

/-- **THE TABLE** of a range that overlaps that of the curve is complete and
    lies in it; that of any other range is refused without a line. -/
theorem table_within (asc : c.Ascending)
    (closed : (s.get "extrapolate").isTruthy = false)
    (counted : Session.intervals (s.get "npoints")
      = (.ok n : Except (Fault ℝ) ℤ)) (one : 1 ≤ n)
    (apart : ∀ a b, r.x0 = some a → r.x1 = some b → a ≠ b) :
    (Overlaps r c → (table s r c).fault = none
        ∧ ((table s r c).lines.length : ℤ) = n + 1
        ∧ ∀ line ∈ (table s r c).lines,
          c.xMin ≤ line.x ∧ line.x ≤ c.xMax)
      ∧ (¬ Overlaps r c → table s r c = ⟨[], some .emptyInterval⟩) := by
  have htable : table s r c
      = c.table (Scalar.clamp (r.x0.getD c.xMin) c.xMin c.xMax)
        (Scalar.clamp (r.x1.getD c.xMax) c.xMin c.xMax) n := by
    have hopen : ¬ (s.get "extrapolate").isTruthy = true := by
      rw [closed]
      exact Bool.false_ne_true
    rw [table, counted, range, if_neg hopen]
  have hclamped := clamped_eq_iff asc apart
  have hmem := Exact.clamp_mem asc.xMin_lt_xMax.le
  constructor
  · intro overlaps
    have hne := mt hclamped.mp (not_not_intro overlaps)
    rw [htable, c.table_of_ne hne one]
    refine ⟨rfl, ?_, fun line hline => ?_⟩
    · show (((Curve.places _ _ n).map _).length : ℤ) = n + 1
      rw [List.length_map]
      exact Curve.length_places one _ _
    · obtain ⟨x, hx, rfl⟩ := List.mem_map.mp hline
      obtain ⟨hlow, hhigh⟩ := Curve.mem_places one hx
      exact ⟨(le_min (hmem _).1 (hmem _).1).trans hlow,
        hhigh.trans (max_le (hmem _).2 (hmem _).2)⟩
  · intro beside
    rw [htable, ← hclamped.mpr beside]
    exact Curve.table_self ((c.covers_iff _).mpr (hmem _)) one

/-- The boundary of a family that is named. -/
theorem ofLiteral_of_family {given : Literal} {f : Family}
    (family : Family.ofLiteral? given = some f) (first last : Option ℝ) :
    Boundary.ofLiteral given first last = Boundary.ofFamily f first last := by
  cases given with
  | text name => simp only [Boundary.ofLiteral, family]
  | _ => exact absurd family (by simp [Family.ofLiteral?])

/-- Slopes at both ends on the command line ask for the full boundary. -/
theorem boundary_of_slopes {m₀ m₁ : ℝ} (h₀ : r.m0 = some m₀)
    (h₁ : r.m1 = some m₁) : boundary s r = .ok (.full m₀ m₁) := by
  have family : Family.ofLiteral? (.text Family.full.name) = some .full :=
    Family.ofName?_name .full
  rw [boundary, h₀, h₁]
  exact ofLiteral_of_family family _ _

/-- Without slopes on the command line the boundary is that of the family of
    the settings. -/
theorem boundary_of_none (h₀ : r.m0 = none) (h₁ : r.m1 = none) {f : Family}
    (family : Family.ofLiteral? (s.get "spline_type") = some f) :
    boundary s r = Boundary.ofFamily f none none := by
  rw [boundary, h₀, h₁]
  exact ofLiteral_of_family family _ _

/-- Slopes are given at both ends or at none, so there is a boundary, and it is
    not a closed one. -/
theorem exists_boundary (paired : r.m0.isSome = r.m1.isSome)
    (family : Family.ofLiteral? (s.get "spline_type") = some .natural
      ∨ Family.ofLiteral? (s.get "spline_type") = some .monotonic) :
    ∃ b : Boundary ℝ, boundary s r = .ok b ∧ b.family ≠ .periodic := by
  cases h₀ : r.m0 with
  | none =>
      have h₁ : r.m1 = none := by
        rwa [h₀, eq_comm, Option.isSome_none, Option.isSome_eq_false_iff,
          Option.isNone_iff_eq_none] at paired
      rcases family with hnatural | hmonotonic
      · exact ⟨_, boundary_of_none h₀ h₁ hnatural, by decide⟩
      · exact ⟨_, boundary_of_none h₀ h₁ hmonotonic, by decide⟩
  | some m₀ =>
      rw [h₀, eq_comm, Option.isSome_some, Option.isSome_iff_exists] at paired
      obtain ⟨m₁, h₁⟩ := paired
      exact ⟨_, boundary_of_slopes h₀ h₁, nofun⟩

/-- **THE RANGE OF A TABLE** that may not leave that of the curve: for points
    in order, a natural or monotonic family, slopes at both ends or none and
    one interval at least there is a table.  It is complete, with all its
    positions in the range of the curve, if the range that is asked for
    overlaps that of the curve.  In every other case it is refused without a
    line. -/
theorem ofPoints_within {points : List (Point ℝ)} (two : 2 ≤ points.length)
    (order : Curve.InOrder (s.get "sort_inputs").isTruthy points)
    (closed : (s.get "extrapolate").isTruthy = false)
    (counted : Session.intervals (s.get "npoints")
      = (.ok n : Except (Fault ℝ) ℤ)) (one : 1 ≤ n)
    (paired : r.m0.isSome = r.m1.isSome)
    (family : Family.ofLiteral? (s.get "spline_type") = some .natural
      ∨ Family.ofLiteral? (s.get "spline_type") = some .monotonic)
    (apart : ∀ a b, r.x0 = some a → r.x1 = some b → a ≠ b) :
    ∃ (notices : List (Notice ℝ)) (c : Curve ℝ) (t : Table ℝ),
      fit s r points = .ok ⟨notices, .ok c⟩
        ∧ ofPoints s r points = .ok ⟨notices, .ok t⟩
        ∧ c.points.toList
          = Curve.arrange (s.get "sort_inputs").isTruthy points
        ∧ (Overlaps r c → t.fault = none
          ∧ (t.lines.length : ℤ) = n + 1
          ∧ ∀ line ∈ t.lines, c.xMin ≤ line.x ∧ line.x ≤ c.xMax)
        ∧ (¬ Overlaps r c → t = ⟨[], some .emptyInterval⟩) := by
  obtain ⟨b, hb, hopen⟩ := exists_boundary paired family
  obtain ⟨m, p, -, hp, asc, hfit⟩ := order.exists_through two
  obtain ⟨slopes, hslopes⟩ :=
    Curve.exists_slopes asc b fun h => absurd h hopen
  obtain ⟨hresult, hpoints⟩ := Curve.fit_of_slopes (hfit b) hp hslopes
  have hfitted : fit s r points
      = .ok ⟨(Curve.fit b (s.get "sort_inputs").isTruthy points).notices,
        .ok (Curve.ofSlopes b.family p slopes)⟩ := by
    rw [fit, hb, ← hresult]
    rfl
  obtain ⟨hinside, houtside⟩ := table_within
    (Curve.ascending_ofSlopes b.family slopes asc) closed counted one apart
  refine ⟨_, _, table s r (Curve.ofSlopes b.family p slopes), hfitted, ?_,
    hpoints, hinside, houtside⟩
  rw [ofPoints, hfitted]
  rfl

/-- Natural curves, sorted points and two intervals that may not leave the
    range. -/
def closedSettings : Settings :=
  [("spline_type", .text "natural"), ("sort_inputs", .bool true),
    ("extrapolate", .bool false), ("npoints", .int 2)]

/-- A command line that gives a range and nothing else. -/
def rangeOnly (x₀ x₁ : ℝ) : Request ℝ := { x0 := some x₀, x1 := some x₁ }

/-- A range on the right of the points has no table; one that begins in the
    middle between them has. -/
theorem ofPoints_within_beside :
    (∃ notices, ofPoints closedSettings (rangeOnly 2 3)
        [⟨0, 0⟩, ⟨1, 1⟩]
      = .ok ⟨notices, .ok ⟨[], some .emptyInterval⟩⟩)
      ∧ ∃ notices t, ofPoints closedSettings (rangeOnly (1 / 2) 3)
          [⟨0, 0⟩, ⟨1, 1⟩] = .ok ⟨notices, .ok t⟩
        ∧ t.fault = none ∧ (t.lines.length : ℤ) = 2 + 1 := by
  have asc : [(⟨0, 0⟩ : Point ℝ), ⟨1, 1⟩].Pairwise fun p q => p.x < q.x := by
    norm_num
  have two : 2 ≤ [(⟨0, 0⟩ : Point ℝ), ⟨1, 1⟩].length := le_refl 2
  have one : (1 : ℤ) ≤ 2 := by decide
  have hnatural : Family.ofLiteral? (closedSettings.get "spline_type")
      = some .natural := Family.ofName?_name .natural
  have hends (c : Curve ℝ)
      (hc : c.points.toList = Curve.arrange true [⟨0, 0⟩, ⟨1, 1⟩]) :
      c.xMin = 0 ∧ c.xMax = 1 := by
    rw [Curve.arrange_eq_self true asc] at hc
    have hfirst := c.head?_points
    have hlast := c.getLast?_points
    rw [hc] at hfirst hlast
    exact ⟨(Option.some.inj hfirst).symm, (Option.some.inj hlast).symm⟩
  have hoverlaps (c : Curve ℝ) (x₀ x₁ : ℝ) : Overlaps (rangeOnly x₀ x₁) c
      ↔ c.xMin < max x₀ x₁ ∧ min x₀ x₁ < c.xMax := Iff.rfl
  constructor
  · obtain ⟨notices, c, t, -, ht, hc, -, hbeside⟩ := ofPoints_within
      (s := closedSettings) (r := rangeOnly 2 3) two
      (.of_ascending true asc) rfl rfl one rfl (Or.inl hnatural)
      (by rintro a b ⟨⟩ ⟨⟩; norm_num)
    rw [hoverlaps, (hends c hc).1, (hends c hc).2] at hbeside
    rw [hbeside (by norm_num)] at ht
    exact ⟨notices, ht⟩
  · obtain ⟨notices, c, t, -, ht, hc, hinside, -⟩ := ofPoints_within
      (s := closedSettings) (r := rangeOnly (1 / 2) 3) two
      (.of_ascending true asc) rfl rfl one rfl (Or.inl hnatural)
      (by rintro a b ⟨⟩ ⟨⟩; norm_num)
    rw [hoverlaps, (hends c hc).1, (hends c hc).2] at hinside
    obtain ⟨hfault, hlength, -⟩ := hinside (by norm_num)
    exact ⟨notices, t, ht, hfault, hlength⟩

end PiecewiseCubic.Tabulation
