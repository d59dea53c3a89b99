import PiecewiseCubic.Proofs.Curve.Limiter
import PiecewiseCubic.Proofs.Curve.Mirror
import PiecewiseCubic.Proofs.Curve.Uniqueness
import PiecewiseCubic.Proofs.Curve.Verdict

/-! # Curves through mirrored points

    Points with negated values lie in the order they did.  Smooth slopes are
    told by what the curve does at its knots, which negated slopes do for the
    mirrored points.  The limiter only looks at quotients and products of
    slopes and secants, which keep their sign when all of them are negated.
    So each family finds the negated slopes, and its curve is the mirror
    image. -/

namespace PiecewiseCubic

/-! ## Data -/

section Mirror

variable {α : Type} [Scalar α]

/-- The point with the negated value. -/
def Point.mirrored (p : Point α) : Point α := ⟨p.x, -p.y⟩

/-- The boundary with the given slopes negated. -/
def Boundary.mirrored : Boundary α → Boundary α
  | .full first last => .full (-first) (-last)
  | .natural => .natural
  | .periodic => .periodic
  | .monotonic => .monotonic

/-- What the limiter makes of negated slopes. -/
def Limiter.Limited.mirrored : Limiter.Limited α → Limiter.Limited α
  | .flat => .flat
  | .wrongSign => .wrongSign
  | .steep left right => .steep (-left) (-right)
  | .kept => .kept

theorem Boundary.family_mirrored (b : Boundary α) :
    b.mirrored.family = b.family := by
  cases b <;> rfl

end Mirror

variable {m : ℕ}

theorem Moments.secants_mirrored (p : Vector (Point ℝ) (m + 2)) :
    secants (p.map Point.mirrored) = (secants p).map (-·) := by
  refine Vector.ext fun i hi => ?_
  rw [Vector.getElem_map]
  show (secants (p.map Point.mirrored)).get ⟨i, hi⟩
    = -(secants p).get ⟨i, hi⟩
  rw [get_secants, get_secants, get_widths, get_widths, Vector.get_map,
    Vector.get_map]
  show (-(p.get _).y - -(p.get _).y) / ((p.get _).x - (p.get _).x) = _
  ring

/-! ## Limited slopes -/

namespace Limiter

/-- **ONE SEGMENT** with negated slopes is judged as it was. -/
theorem judge_mirrored (before : Option ℝ) (secant left right : ℝ) :
    judge (before.map (-·)) (-secant) (-left) (-right)
      = (judge before secant left right).mirrored := by
  have habs : Scalar.abs (-secant) = Scalar.abs secant := abs_neg secant
  -- of the slopes only quotients by a secant and products with one are tested
  have hsteep (tau a : ℝ) : tau * a * -secant = -(tau * a * secant) :=
    mul_neg _ _
  cases before with
  | none =>
      simp only [judge, neg_div_neg_eq, habs, hsteep, Option.map_none,
        Option.any_none]
      split_ifs <;> rfl
  | some s =>
      simp only [judge, neg_div_neg_eq, habs, hsteep, Option.map_some,
        Option.any_some, neg_mul_neg]
      split_ifs <;> rfl

/-- **THE WHOLE PASS** over negated slopes answers the negated ones. -/
theorem limitFrom_mirrored (before : Option ℝ) (left : ℝ)
    (rest : List (ℝ × ℝ)) :
    limitFrom (before.map (-·)) (-left) (rest.map fun e => (-e.1, -e.2))
      = (limitFrom before left rest).map (-·) := by
  induction rest generalizing before left with
  | nil => rfl
  | cons e rest ih =>
      obtain ⟨secant, right⟩ := e
      have hrest (l : ℝ) := ih (some secant) l
      rw [List.map_cons, limitFrom, limitFrom, judge_mirrored]
      cases judge before secant left right with
      | flat =>
          show 0 :: limitFrom (some (-secant)) 0 _
            = -0 :: (limitFrom (some secant) 0 rest).map (-·)
          rw [← hrest, neg_zero]
          rfl
      | wrongSign =>
          show 0 :: limitFrom (some (-secant)) (-right) _
            = -0 :: (limitFrom (some secant) right rest).map (-·)
          rw [← hrest, neg_zero]
          rfl
      | steep l r => exact congrArg (-l :: ·) (hrest r)
      | kept => exact congrArg (-left :: ·) (hrest right)

theorem initialSlopes_mirrored (secants : Vector ℝ (m + 1)) :
    initialSlopes (secants.map (-·)) = (initialSlopes secants).map (-·) := by
  rw [initialSlopes, initialSlopes, Vector.map_ofFn]
  refine congrArg Vector.ofFn (funext fun i => ?_)
  rw [Function.comp_apply, ← Moments.atPoint_map (-·), Vector.get_map,
    Vector.get_map]
  congr 1
  funext k
  rw [Vector.get_map, Vector.get_map]
  show (-_ + -_) / 2 = -((_ + _) / 2)
  ring

/-- **LIMITED SLOPES** of mirrored points are the negated ones. -/
theorem slopes_mirrored (p : Vector (Point ℝ) (m + 2)) :
    slopes (p.map Point.mirrored) = (slopes p).map (-·) := by
  have hentries : entries ((Moments.secants p).map (-·))
      = (entries (Moments.secants p)).map fun e => (-e.1, -e.2) := by
    rw [entries, entries, List.map_ofFn, initialSlopes_mirrored]
    refine congrArg List.ofFn (funext fun k => ?_)
    rw [Vector.get_map, Vector.get_map]
    rfl
  refine Vector.toList_inj.mp ?_
  rw [Vector.toList_map, toList_slopes, toList_slopes,
    Moments.secants_mirrored, hentries, Vector.get_map]
  exact limitFrom_mirrored (some _) _ _

end Limiter

/-! ## Slopes of each family -/

namespace Curve

variable {p : Vector (Point ℝ) (m + 2)} {s : Vector ℝ (m + 2)}

theorem ascending_mirrored (asc : Moments.Ascending p) :
    Moments.Ascending (p.map Point.mirrored) := by
  intro i j hij
  rw [Vector.get_map, Vector.get_map]
  exact asc i j hij

theorem ofSlopes_mirrored (family : Family) (p : Vector (Point ℝ) (m + 2))
    (s : Vector ℝ (m + 2)) :
    ofSlopes family (p.map Point.mirrored) (s.map (-·))
      = (ofSlopes family p s).mirrored :=
  ofSlopes_map (fun _ _ => rfl) family p s

/-- Segments that share a derivative at their knots share the negated one. -/
theorem AgreesAtKnots.mirrored {c : Curve ℝ} {order : Order}
    (agree : c.AgreesAtKnots order) : c.mirrored.AgreesAtKnots order := by
  intro i j hij
  have hi : c.mirrored.segment i = (c.segment i).mirrored :=
    c.segment_mirrored i
  have hj : c.mirrored.segment j = (c.segment j).mirrored :=
    c.segment_mirrored j
  rw [hi, hj, Segment.eval_mirrored, Segment.eval_mirrored]
  exact congrArg (-·) (agree i j hij)

/-- **EACH FAMILY** finds the negated slopes for mirrored points. -/
theorem slopes_mirrored {b : Boundary ℝ} (asc : Moments.Ascending p)
    (hs : slopes b p = .ok s) :
    slopes b.mirrored (p.map Point.mirrored) = .ok (s.map (-·)) := by
  have asc' := ascending_mirrored asc
  cases b with
  | full first last =>
      obtain ⟨agree, hfirst, hlast⟩ := (slopes_full_iff .full asc).mp hs
      refine (slopes_full_iff .full asc').mpr ?_
      rw [ofSlopes_mirrored, Vector.get_map, Vector.get_map, hfirst, hlast]
      exact ⟨agree.mirrored, rfl, rfl⟩
  | natural =>
      obtain ⟨agree, hfirst, hlast⟩ := (slopes_natural_iff .natural asc).mp hs
      have hzero : (.ok 0 : Except (Fault ℝ) ℝ).map (-·) = .ok 0 :=
        congrArg Except.ok neg_zero
      refine (slopes_natural_iff .natural asc').mpr ?_
      rw [ofSlopes_mirrored, Vector.get_map, Vector.get_map, eval_mirrored,
        eval_mirrored]
      exact ⟨agree.mirrored, (congrArg _ hfirst).trans hzero,
        (congrArg _ hlast).trans hzero⟩
  | periodic =>
      cases m with
      | zero => exact nomatch hs
      | succ m =>
          obtain ⟨agree, hslope, hcurvature⟩ :=
            (slopes_periodic_iff .periodic asc).mp hs
          refine (slopes_periodic_iff .periodic asc').mpr ?_
          rw [ofSlopes_mirrored, Vector.get_map, Vector.get_map,
            Vector.get_map, Vector.get_map, eval_mirrored, eval_mirrored]
          exact ⟨agree.mirrored, congrArg (-·) hslope,
            congrArg (Except.map (-·)) hcurvature⟩
  | monotonic =>
      obtain rfl : Limiter.slopes p = s := Except.ok.inj hs
      exact congrArg Except.ok (Limiter.slopes_mirrored p)

/-! ## Fits -/

/-- What a curve answers and what its mirror image does: it stores the negated
    slopes, has the negated derivatives and runs the other way, wherever the
    curve may be asked. -/
structure Mirrors (c d : Curve ℝ) : Prop where
  points : d.points.toList = c.points.toList.map Point.mirrored
  slopes : d.knots.toList.map Knot.slope
    = c.knots.toList.map fun k => -k.slope
  derivatives : ∀ (order : Order) (extrapolate : Bool) (x : ℝ),
    extrapolate = true ∨ c.covers x = true →
    ∃ y, c.eval order extrapolate x = .ok y
      ∧ d.eval order extrapolate x = .ok (-y)
  directions : ∀ (extrapolate : Bool) (x₀ x₁ : ℝ), x₀ ≠ x₁ →
    extrapolate = true ∨ c.covers x₀ = true ∧ c.covers x₁ = true →
    ∃ m, c.trend x₀ x₁ extrapolate = .ok m
      ∧ d.trend x₀ x₁ extrapolate = .ok m.reversed

/-- **A MIRRORED CURVE** mirrors the curve. -/
theorem mirrors_mirrored (c : Curve ℝ) : c.Mirrors c.mirrored where
  points := by
    have hpoints : c.mirrored.points = c.points.map Point.mirrored := by
      rw [points, points, Vector.map_map]
      exact Vector.map_map
    exact (congrArg Vector.toList hpoints).trans Vector.toList_map
  slopes := by
    have hknots : c.mirrored.knots.toList = c.knots.toList.map Knot.mirrored :=
      Vector.toList_map
    rw [hknots, List.map_map]
    rfl
  derivatives := by
    intro order extrapolate x admitted
    have hanswer : c.eval order extrapolate x = .ok (c.continued order x) :=
      if_pos ((Bool.or_eq_true _ _).mpr admitted)
    refine ⟨_, hanswer, ?_⟩
    rw [eval_mirrored, hanswer]
    rfl
  directions := by
    intro extrapolate x₀ x₁ hne admitted
    have hanswer := trend_eq hne admitted
    refine ⟨_, hanswer, ?_⟩
    rw [trend_mirrored, hanswer]
    rfl

/-- Mirrored points are arranged as the points are. -/
theorem arrange_mirrored (sort : Bool) (points : List (Point ℝ)) :
    arrange sort (points.map Point.mirrored)
      = (arrange sort points).map Point.mirrored :=
  arrange_map Point.mirrored (fun _ _ => rfl) (fun _ _ => Iff.rfl) sort points

/-- **MIRRORED POINTS**: whatever the family, the fit of points in order and
    that of the mirrored points, with the slopes that are given negated too,
    make a curve and its mirror image. -/
theorem fit_mirrored (b : Boundary ℝ) (sort : Bool) (points : List (Point ℝ))
    (two : 2 ≤ points.length)
    (three : b.family = .periodic → 3 ≤ points.length)
    (order : InOrder sort points) :
    ∃ c d : Curve ℝ, (fit b sort points).result = .ok c
      ∧ (fit b.mirrored sort (points.map Point.mirrored)).result = .ok d
      ∧ c.points.toList = arrange sort points ∧ c.Mirrors d := by
  obtain ⟨m, p, hlength, hp, asc, hfit⟩ := order.exists_through two
  obtain ⟨s, hs⟩ := exists_slopes asc b fun h => hlength ▸ three h
  obtain ⟨hresult, hpoints⟩ := fit_of_slopes (hfit b) hp hs
  refine ⟨_, (ofSlopes b.family p s).mirrored, hresult, ?_, hpoints,
    mirrors_mirrored _⟩
  have hp' : (p.map Point.mirrored).toList
      = arrange sort (points.map Point.mirrored) := by
    rw [Vector.toList_map, hp, arrange_mirrored]
  rw [fit_eq_through hp', result_through (slopes_mirrored asc hs),
    b.family_mirrored, ofSlopes_mirrored]

/-- A closed curve through three points. -/
theorem fit_mirrored_three_points :
    3 ≤ [(⟨0, 0⟩ : Point ℝ), ⟨1, 1⟩, ⟨3, 5⟩].length
      ∧ InOrder false [⟨0, 0⟩, ⟨1, 1⟩, ⟨3, 5⟩]
      ∧ ∃ c d : Curve ℝ,
        (fit .periodic false [⟨0, 0⟩, ⟨1, 1⟩, ⟨3, 5⟩]).result = .ok c
          ∧ (fit .periodic false [⟨0, -0⟩, ⟨1, -1⟩, ⟨3, -5⟩]).result = .ok d
          ∧ c.Mirrors d := by
  have three : 3 ≤ [(⟨0, 0⟩ : Point ℝ), ⟨1, 1⟩, ⟨3, 5⟩].length := le_refl 3
  have order : InOrder false [⟨0, 0⟩, ⟨1, 1⟩, ⟨3, 5⟩] :=
    InOrder.of_ascending false (by norm_num)
  obtain ⟨c, d, hc, hd, -, hmirror⟩ :=
    fit_mirrored .periodic false _ (Nat.le_of_succ_le three) (fun _ => three)
      order
  exact ⟨three, order, c, d, hc, hd, hmirror⟩

end Curve

end PiecewiseCubic
