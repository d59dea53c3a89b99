import PiecewiseCubic.Curve.Basic
import PiecewiseCubic.Tridiagonal.Solve

/-! # Moments — the equations for smooth curves

    The moments of a curve are its second derivatives at the knots.  A curve
    with a continuous first derivative has moments that solve a tridiagonal
    system: one equation for each knot between two segments, and two more for
    the ends.  The slopes follow from the moments. -/

namespace PiecewiseCubic

/-- A sampling point. -/
structure Point (α : Type) where
  x : α
  y : α
  deriving Repr

namespace Moments

variable {α : Type} [Scalar α] {m : Nat}

open Scalar

/-- The widths of the `m + 1` segments between `m + 2` points. -/
def widths (p : Vector (Point α) (m + 2)) : Vector α (m + 1) :=
  Vector.ofFn fun i => (p.get i.succ).x - (p.get i.castSucc).x

/-- The slopes of the straight lines between neighbouring points. -/
def secants (p : Vector (Point α) (m + 2)) : Vector α (m + 1) :=
  let h := widths p
  Vector.ofFn fun i =>
    ((p.get i.succ).y - (p.get i.castSucc).y) / h.get i

/-- The row of a knot between two segments of the given widths.  The moments
    beside it have weights that add up to one. -/
def innerRow (left right : α) : Row α :=
  let share := right / (left + right)
  ⟨1 - share, 2, share⟩

/-- The right-hand side at a knot between two segments: six times the second
    divided difference there. -/
def bend (left right before after : α) : α :=
  6 / (left + right) * (after - before)

/-- The right-hand side at an end, next to a segment of the given width: six
    times the change of the slope over the width. -/
def endBend (width before after : α) : α := 6 / width * (after - before)

/-- What belongs to point `i`, given what belongs to the first point, to the
    last one and to each point between segment `k` and the next. -/
def atPoint {β : Type} (first last : β) (inner : Fin m → β)
    (i : Fin (m + 2)) : β :=
  if h : 0 < i.val ∧ i.val < m + 1 then inner ⟨i.val - 1, by omega⟩
  else if i.val = 0 then first
  else last

/-- The matrix of a curve that is not closed, given the rows of its ends. -/
def openMatrix (p : Vector (Point α) (m + 2)) (first last : Row α) :
    Tridiagonal α (m + 2) :=
  let h := widths p
  Tridiagonal.ofRows (atPoint first last fun k =>
    innerRow (h.get k.castSucc) (h.get k.succ))

/-- The right-hand side of a curve that is not closed, given that of its
    ends. -/
def openBends (p : Vector (Point α) (m + 2)) (first last : α) :
    Vector α (m + 2) :=
  let h := widths p
  let s := secants p
  Vector.ofFn (atPoint first last fun k =>
    bend (h.get k.castSucc) (h.get k.succ) (s.get k.castSucc)
      (s.get k.succ))

/-- The matrix of the natural curve: the moments at both ends are zero. -/
def naturalMatrix (p : Vector (Point α) (m + 2)) : Tridiagonal α (m + 2) :=
  openMatrix p ⟨0, 2, 0⟩ ⟨0, 2, 0⟩

/-- The right-hand side of the natural curve. -/
def naturalBends (p : Vector (Point α) (m + 2)) : Vector α (m + 2) :=
  openBends p 0 0

/-- The matrix of the full curve, whose end rows couple the end moments with
    their neighbours. -/
def fullMatrix (p : Vector (Point α) (m + 2)) : Tridiagonal α (m + 2) :=
  openMatrix p ⟨0, 2, 1⟩ ⟨1, 2, 0⟩

/-- The right-hand side of the full curve with the given slopes at both
    ends. -/
def fullBends (p : Vector (Point α) (m + 2)) (first last : α) :
    Vector α (m + 2) :=
  let h := widths p
  let s := secants p
  openBends p (endBend (h.get firstPlace) first (s.get firstPlace))
    (endBend (h.get (Fin.last m)) (s.get (Fin.last m)) last)

/-- The segment after segment `k` on the closed curve. -/
def nextSegment (k : Fin (m + 1)) : Fin (m + 1) :=
  if h : k.val < m then ⟨k.val + 1, Nat.succ_lt_succ h⟩ else firstPlace

/-- The matrix of the periodic curve.  Its unknowns are the moments behind
    each segment; the moment before the first one is that behind the last
    one. -/
def periodicMatrix (p : Vector (Point α) (m + 3)) :
    Tridiagonal α (m + 2) :=
  let h := widths p
  Tridiagonal.ofCyclicRows fun k => innerRow (h.get k) (h.get (nextSegment k))

/-- The right-hand side of the periodic curve. -/
def periodicBends (p : Vector (Point α) (m + 3)) : Vector α (m + 2) :=
  let h := widths p
  let s := secants p
  Vector.ofFn fun k =>
    bend (h.get k) (h.get (nextSegment k)) (s.get k) (s.get (nextSegment k))

/-- The moments at all points of the periodic curve, from those behind each
    segment. -/
def closed (moments : Vector α (m + 2)) : Vector α (m + 3) :=
  Vector.ofFn fun i =>
    if h : i.val = 0 then moments.get (Fin.last (m + 1))
    else moments.get ⟨i.val - 1, by omega⟩

/-- The slope of a segment without the part of the moment at either end. -/
def baseSlope (h secant before after : α) : α :=
  secant - h / 6 * (after - before)

/-- The slope at the beginning of segment `k`. -/
def startSlope (h secants : Vector α (m + 1)) (moments : Vector α (m + 2))
    (k : Fin (m + 1)) : α :=
  let before := moments.get k.castSucc
  baseSlope (h.get k) (secants.get k) before (moments.get k.succ)
    - before * h.get k / 2

/-- The slope at the end of segment `k`. -/
def endSlope (h secants : Vector α (m + 1)) (moments : Vector α (m + 2))
    (k : Fin (m + 1)) : α :=
  let after := moments.get k.succ
  baseSlope (h.get k) (secants.get k) (moments.get k.castSucc) after
    + after * h.get k / 2

/-- The slopes that belong to the moments.  Each slope is that of the segment
    behind its point; the last one is that of the segment before. -/
def slopes (p : Vector (Point α) (m + 2)) (moments : Vector α (m + 2)) :
    Vector α (m + 2) :=
  let h := widths p
  let s := secants p
  Vector.ofFn fun i =>
    if inner : i.val < m + 1 then startSlope h s moments ⟨i.val, inner⟩
    else endSlope h s moments (Fin.last m)

end Moments

end PiecewiseCubic
