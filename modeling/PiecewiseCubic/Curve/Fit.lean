import PiecewiseCubic.Curve.Limiter
import PiecewiseCubic.Fault
import PiecewiseCubic.Log

/-! # Fitting a curve through points

    Points are sorted by position, or only turned around if the first one is
    behind the last one.  The family then fixes the slopes: those of the
    smooth families solve the equations for the moments, those of the
    monotonic family are limited. -/

namespace PiecewiseCubic

/-- What is worth telling about a fit. -/
inductive Notice (α : Type) where
  /-- The end values of a periodic curve differ. -/
  | unequalEnds (first last : α)
  /-- A curve was made. -/
  | constructed (family : Family) (points : Nat)

namespace Notice

/-- The significant digits of a value in a notice. -/
def digits : Nat := 6

/-- The log record of a notice. -/
def record : Notice Float → Log.Record
  | .unequalEnds first last =>
      ⟨.warning, "The first and the last sampling points of a periodic spline "
        ++ "have different values " ++ Double.roundedText digits first
        ++ " and " ++ Double.roundedText digits last⟩
  | .constructed family points =>
      ⟨.debug, "Constructed " ++ family.name ++ " spline with "
        ++ toString points ++ " sampling points"⟩

end Notice

/-- A result together with what was noticed on the way to it. -/
structure Noticed (α : Type) (β : Type) where
  notices : List (Notice α)
  result : Except (Fault α) β

/-- The result carried on, with the same notices. -/
def Noticed.map {α β γ : Type} (f : β → γ) (n : Noticed α β) : Noticed α γ :=
  ⟨n.notices, n.result.map f⟩

namespace Curve

variable {α : Type} [Scalar α] {m : Nat}

open Scalar

/-- The curve with the given points and slopes. -/
def ofSlopes (family : Family) (p : Vector (Point α) (m + 2))
    (slopes : Vector α (m + 2)) : Curve α where
  family := family
  inner := m
  knots := Vector.ofFn fun i => ⟨(p.get i).x, (p.get i).y, slopes.get i⟩

/-- The moments that solve a system, which may have none. -/
def moments (M : Tridiagonal α m) (bends : Vector α m) :
    Except (Fault α) (Vector α m) :=
  match M.solve bends with
  | some u => .ok u
  | none => .error .singular

/-- The slopes of the family, unless their equations are singular or the
    family needs more points. -/
def slopes : {m : Nat} → Boundary α → Vector (Point α) (m + 2) →
    Except (Fault α) (Vector α (m + 2))
  | _, .full first last, p =>
      (moments (Moments.fullMatrix p) (Moments.fullBends p first last)).map
        (Moments.slopes p)
  | _, .natural, p =>
      (moments (Moments.naturalMatrix p) (Moments.naturalBends p)).map
        (Moments.slopes p)
  | 0, .periodic, _ => .error .tooFewPoints
  | _ + 1, .periodic, p =>
      (moments (Moments.periodicMatrix p) (Moments.periodicBends p)).map
        fun u => Moments.slopes p (Moments.closed u)
  | _, .monotonic, p => .ok (Limiter.slopes p)

/-- What is noticed before the slopes are sought: the ends of a periodic
    curve with points enough should have one value. -/
def endNotices (b : Boundary α) (p : Vector (Point α) (m + 2)) :
    List (Notice α) :=
  match b with
  | .periodic =>
      let first := (p.get firstPlace).y
      let last := (p.get (Fin.last (m + 1))).y
      if m = 0 ∨ (first == last) = true then [] else [.unequalEnds first last]
  | _ => []

/-- The curve through points whose order is settled. -/
def through (b : Boundary α) (p : Vector (Point α) (m + 2)) :
    Noticed α (Curve α) :=
  let notices := endNotices b p
  match slopes b p with
  | .error fault => ⟨notices, .error fault⟩
  | .ok slopes =>
      ⟨notices ++ [.constructed b.family (m + 2)],
        .ok (ofSlopes b.family p slopes)⟩

/-- Points in ascending order of position, by sorting or, if they are taken
    to be in order already, by turning around a list that descends. -/
def arrange (sort : Bool) (points : List (Point α)) : List (Point α) :=
  if sort then points.mergeSort fun p q => notBehind p.x q.x
  else
    match points.head?, points.getLast? with
    | some first, some last =>
        if last.x < first.x then points.reverse else points
    | _, _ => points

/-- The points are only moved. -/
theorem arrange_perm (sort : Bool) (points : List (Point α)) :
    (arrange sort points).Perm points := by
  cases sort with
  | true => exact List.mergeSort_perm points _
  | false =>
      show (match points.head?, points.getLast? with
        | some first, some last =>
            if last.x < first.x then points.reverse else points
        | _, _ => points).Perm points
      split
      · split
        · exact List.reverse_perm points
        · exact List.Perm.refl points
      · exact List.Perm.refl points

/-- The curve of a boundary through a list of points, which must be two at
    least. -/
def fit (b : Boundary α) (sort : Bool) (points : List (Point α)) :
    Noticed α (Curve α) :=
  match arrange sort points with
  | p :: q :: rest => through b ⟨(p :: q :: rest).toArray, rfl⟩
  | _ => ⟨[], .error .tooFewPoints⟩

/-- The full curve with two knots whose positions are exchanged or not.  The
    values go with the positions; the slopes stay where they were given. -/
def ofEndsIn (exchanged : Bool) (x₀ x₁ y₀ y₁ m₀ m₁ : α) : Curve α where
  family := .full
  inner := 0
  knots :=
    if exchanged then #v[⟨x₁, y₁, m₀⟩, ⟨x₀, y₀, m₁⟩]
    else #v[⟨x₀, y₀, m₀⟩, ⟨x₁, y₁, m₁⟩]

/-- The full curve with two knots, in ascending order of position. -/
def ofEnds (x₀ x₁ y₀ y₁ m₀ m₁ : α) : Curve α :=
  ofEndsIn (decide (x₁ < x₀)) x₀ x₁ y₀ y₁ m₀ m₁

end Curve

end PiecewiseCubic
