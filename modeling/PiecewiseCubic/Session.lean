import PiecewiseCubic.Cell.Operand
import PiecewiseCubic.Curve.Crossing
import PiecewiseCubic.Curve.Fit
import PiecewiseCubic.Curve.Sampling
import PiecewiseCubic.Curve.Table

/-! # Sessions — commands on one curve

    A session holds at most one curve.  A command makes a curve, changes it
    or asks about it, with arguments as a caller gives them; it answers a
    reply or a fault.  A command that fails leaves the session as it was, and
    so does every question. -/

namespace PiecewiseCubic

/-- What a caller may say about a curve to be fitted. -/
structure FitOptions (α : Type) where
  /-- The name of the family. -/
  family : Literal
  /-- The slope at the first point. -/
  first : Cell α
  /-- The slope at the last point. -/
  last : Cell α
  /-- Whether the points are to be sorted. -/
  sort : Literal

/-- What can be asked of a session. -/
inductive Command (α : Type) where
  /-- A new curve through points given by positions and values, or none if
      both are left out. -/
  | create (x y : Cell α) (options : FitOptions α)
  /-- A curve through points given by positions and values. -/
  | setArrays (x y : Cell α) (options : FitOptions α)
  /-- A curve through points given as pairs. -/
  | setPoints (points : Cell α) (options : FitOptions α)
  /-- A curve with two knots, by their positions, values and slopes.  Rows in
      place of two of them that go together are not provided for: no curve
      has such knots. -/
  | setEnds (numbers : Cell α)
  | state
  | info
  /-- An assignment to one number of the curve. -/
  | assign
  | covers (position : Cell α)
  | segment (position : Cell α)
  | coefficients (segment : Literal)
  | eval (order : Literal) (extrapolate : Literal) (position : Cell α)
  | sample (order : Literal) (extrapolate : Literal) (positions : Cell α)
  | trend (first last : Cell α) (extrapolate : Literal)
  | crossing (polynomial : Cell α)
  | crossingBetween (first last : Cell α) (polynomial : Cell α)
  | table (first last : Cell α) (intervals : Literal)

/-- What a session answers. -/
inductive Reply (α : Type) where
  /-- The curve that was made, with what was noticed. -/
  | made (curve : Option (Curve α)) (notices : List (Notice α))
  | state (curve : Option (Curve α))
  /-- The number of knots and the range. -/
  | info (knots : Nat) (xMin xMax : α)
  | truth (b : Bool)
  | index (i : Nat)
  | number (a : α)
  | polynomial (p : Cubic α)
  | tensor (t : Tensor α)
  | monotonicity (m : Monotonicity)
  | lines (ls : List (TableLine α))

namespace Session

variable {α : Type} [Scalar α]

open Scalar

/-- What a command that makes a curve puts into the session, with what was
    noticed. -/
structure Made (α : Type) where
  curve : Option (Curve α)
  notices : List (Notice α)

/-- The family that a caller asks for, with the slopes at both ends. -/
def asked (options : FitOptions α) :
    Except (Fault α) (Boundary (Cell α)) :=
  match Boundary.ofLiteral options.family options.first.given?
      options.last.given? with
  | .error mismatch => .error (.boundary mismatch)
  | .ok b => .ok b

/-- The boundary whose slopes are the numbers in two cells. -/
def boundary : Boundary (Cell α) → Except (Fault α) (Boundary α)
  | .full first last => do
      let first ← first.operand
      let last ← last.operand
      return .full first last
  | .natural => .ok .natural
  | .periodic => .ok .periodic
  | .monotonic => .ok .monotonic

/-- Fits a curve to points with the options of a caller.  The slopes are
    looked at when there are points enough for them to stand in an
    equation. -/
def fit (options : FitOptions α) (points : List (Point α)) :
    Except (Fault α) (Made α) := do
  let b ← asked options
  if points.length ≤ 1 then .error .tooFewPoints
  let b ← boundary b
  let fitted := Curve.fit b options.sort.isTruthy points
  let c ← fitted.result
  return ⟨some c, fitted.notices⟩

/-- Fits a curve to as many positions as values. -/
def fitArrays (x y : Cell α) (options : FitOptions α) :
    Except (Fault α) (Made α) := do
  let xs ← x.entries
  let ys ← y.entries
  if xs.length = ys.length then fit options (List.zipWith Point.mk xs ys)
  else .error .lengthMismatch

/-- Numbers taken two at a time. -/
def pointsOf : List α → List (Point α)
  | x :: y :: rest => ⟨x, y⟩ :: pointsOf rest
  | _ => []

/-- Why there is no curve through points whose coordinates are tables of
    `size` numbers each: there is no equation that they fit into. -/
def refusal (count size : Nat) : Boundary (Cell α) → Fault α
  | .periodic => if count ≤ 2 then .tooFewPoints else .unreadable
  | .full first last =>
      if 2 < count then .unreadable
      else
        match first.operand, last.operand with
        | .error fault, _ => fault
        | .ok _, .error fault => if size = 1 then fault else .unreadable
        | .ok _, .ok _ => .unreadable
  | _ => .unreadable

/-- Refuses points whose coordinates are tables.  Sorting such points looks
    for as many of them as the last extent tells; without sorting, the first
    and the last one must compare. -/
def refuseTables (options : FitOptions α) (count : Nat)
    (extents : List Nat) : Except (Fault α) (Made α) := do
  let b ← asked options
  let size := Tensor.volume extents
  if options.sort.isTruthy then
    if size ≠ 0 && count < extents.getLast?.getD 0 then
      .error .noSuchElement
    else .error (refusal count size b)
  else if size = 1 then .error (refusal count size b)
  else .error .unreadable

/-- Fits a curve to a list of pairs, which are two at least. -/
def fitPoints (points : Cell α) (options : FitOptions α) :
    Except (Fault α) (Made α) := do
  let t ← points.pointTable
  match t.shape with
  | [_, _] =>
      let ps := pointsOf t.entries
      if ps.length ≤ 1 then .error .tooFewPoints else fit options ps
  | count :: _ :: extents =>
      if count ≤ 1 then .error .tooFewPoints
      else refuseTables options count extents
  | _ => .error .tooFewPoints

/-- Whether a position is behind another one.  Two texts are compared letter
    by letter, and two rows are not provided for. -/
def isBehind : Cell α → Cell α → Except (Fault α) Bool
  | .number x₀, .number x₁ => .ok (decide (x₁ < x₀))
  | .text s, .text t => .ok (decide (t < s))
  | _, _ => .error .wrongKind

/-- Makes a curve with two knots from six numbers.  The two positions are
    compared before they are read.  Two rows in place of two numbers that go
    together are not provided for. -/
def fitEnds (numbers : Cell α) : Except (Fault α) (Made α) :=
  match numbers.items? with
  | some [x₀, x₁, y₀, y₁, m₀, m₁] => do
      let exchanged ← isBehind x₀ x₁
      let (x₀, x₁) ← Cell.both exchanged x₀ x₁
      let (y₀, y₁) ← Cell.both exchanged y₀ y₁
      let (m₀, m₁) ← Cell.both false m₀ m₁
      return ⟨some (Curve.ofEndsIn exchanged x₀ x₁ y₀ y₁ m₀ m₁), []⟩
  | _ => .error .wrongKind

/-- The outcome of a command that makes a curve; nothing for a question. -/
def make? : Command α → Option (Except (Fault α) (Made α))
  | .create .blank .blank _ => some (.ok ⟨none, []⟩)
  | .create x y options => some (fitArrays x y options)
  | .setArrays x y options => some (fitArrays x y options)
  | .setPoints points options => some (fitPoints points options)
  | .setEnds numbers => some (fitEnds numbers)
  | _ => none

/-- The curve of a session, which a question needs. -/
def curve (c : Option (Curve α)) : Except (Fault α) (Curve α) :=
  match c with
  | some c => .ok c
  | none => .error .noCurve

/-- The segment of a position.  A curve with one segment does not look at the
    position. -/
def segmentOf (c : Curve α) (position : Cell α) : Except (Fault α) Nat :=
  if c.inner = 0 then .ok 0
  else position.operand.map fun x => (c.segmentIndex x).val

/-- The coefficients of a segment whose number is given as a literal. -/
def coefficients (c : Option (Curve α)) (i : Literal) :
    Except (Fault α) (Cubic α) := do
  let below ←
    match i with
    | .bool _ => .ok false
    | .int n => .ok (decide (n < 0))
    | .real x => .ok (!decide (0 ≤ x))
    | _ => .error .wrongKind
  if below then .error .noSuchSegment
  let c ← curve c
  match i with
  | .int n =>
      if h : n.toNat < c.inner + 1 then .ok (c.segment ⟨n.toNat, h⟩).toCubic
      else .error .noSuchSegment
  | .bool b =>
      if b.toNat < c.inner + 1 then .error .wrongKind
      else .error .noSuchSegment
  | .real x =>
      if x < Float.ofNat (c.inner + 1) then .error .noSuchElement
      else .error .noSuchSegment
  | _ => .error .wrongKind

/-- The order that a literal names. -/
def order (l : Literal) : Except (Fault α) Order :=
  match l.toInt?.bind Order.ofInt? with
  | some order => .ok order
  | none => .error (.unsupportedOrder l)

/-- A derivative at one position. -/
def eval (c : Option (Curve α)) (nu extrapolate : Literal) (x : Cell α) :
    Except (Fault α) α := do
  let order ← order nu
  let c ← curve c
  let x ← x.number?
  c.eval order extrapolate.isTruthy x

/-- A derivative at all positions of a table; the range is looked at before
    the order. -/
def sample (c : Option (Curve α)) (nu extrapolate : Literal)
    (positions : Cell α) : Except (Fault α) (Tensor α) := do
  let t ← positions.tensor
  let c ← curve c
  if c.admits extrapolate.isTruthy t.entries then
    let order ← order nu
    c.sample order extrapolate.isTruthy t
  else .error .outsideRange

/-- The monotonicity over an interval, whose ends are those of the range if
    they are left out. -/
def trend (c : Option (Curve α)) (first last : Cell α)
    (extrapolate : Literal) : Except (Fault α) Monotonicity := do
  if first.given?.isSome && first == last then .error .emptyInterval
  let c ← curve c
  let x₀ ← first.optional
  let x₁ ← last.optional
  c.trend (x₀.getD c.xMin) (x₁.getD c.xMax) extrapolate.isTruthy

/-- The four coefficients of a polynomial, not yet looked at. -/
def polynomialCells (polynomial : Cell α) :
    Except (Fault α) (Cell α × Cell α × Cell α × Cell α) :=
  match polynomial.items? with
  | some [p₃, p₂, p₁, p₀] => .ok (p₃, p₂, p₁, p₀)
  | _ => .error .wrongKind

/-- The polynomial with four coefficients.  The last two may be tables with
    one number. -/
def cubic (p₃ p₂ p₁ p₀ : Cell α) : Except (Fault α) (Cubic α) := do
  let p₃ ← p₃.number?
  let t₂ ← p₂.operands
  let t₁ ← p₁.operands
  let t₀ ← p₀.operands
  match t₂, t₁.entries, t₀.entries with
  | ⟨[], [p₂]⟩, [p₁], [p₀] => return ⟨p₃, p₂, p₁, p₀⟩
  | _, _, _ => .error .unreadable

/-- The crossing with a polynomial over the whole range, or between two
    positions that must lie in it.  The coefficients are looked at if there is
    a segment to look for a crossing on. -/
def crossing (c : Option (Curve α)) (ends : Option (Cell α × Cell α))
    (polynomial : Cell α) : Except (Fault α) α := do
  let (p₃, p₂, p₁, p₀) ← polynomialCells polynomial
  let c ← curve c
  let (first, last) := ends.getD (.number c.xMin, .number c.xMax)
  let x₀ ← first.number?
  if !c.covers x₀ then .error .outsideRange
  let x₁ ← last.number?
  if !c.covers x₁ then .error .outsideRange
  let (lo, hi) := if x₁ < x₀ then (x₁, x₀) else (x₀, x₁)
  if (c.segmentsBetween lo hi).isEmpty then .error (.crossings 0 lo hi)
  let p ← cubic p₃ p₂ p₁ p₀
  c.crossing x₀ x₁ p

/-- The count of intervals that a literal names.  A number that is no integer
    cannot count, but only after it has divided. -/
def intervals : Literal → Except (Fault α) Int
  | .bool b => .ok b.toNat
  | .int n => .ok n
  | .real x => .error (if x == 0 then .noIntervals else .wrongKind)
  | _ => .error .wrongKind

/-- The lines of a table, all of them. -/
def table (c : Option (Curve α)) (first last : Cell α) (k : Literal) :
    Except (Fault α) (List (TableLine α)) := do
  let x₀ ← first.number?
  let x₁ ← last.number?
  let n ← intervals k
  let _ ← Curve.stepOf x₀ x₁ n
  if n < 0 then return []
  let c ← curve c
  let t := c.table x₀ x₁ n
  match t.fault with
  | some fault => .error fault
  | none => return t.lines

/-- The answer to a question. -/
def ask (c : Option (Curve α)) : Command α → Except (Fault α) (Reply α)
  | .state => .ok (.state c)
  | .info => do
      let c ← curve c
      return .info (c.inner + 2) c.xMin c.xMax
  | .assign => do
      let _ ← curve c
      .error .readOnly
  | .covers position => do
      let c ← curve c
      let x ← position.number?
      return .truth (c.covers x)
  | .segment position => do
      let c ← curve c
      let i ← segmentOf c position
      return .index i
  | .coefficients i => return .polynomial (← coefficients c i)
  | .eval nu extrapolate position =>
      return .number (← eval c nu extrapolate position)
  | .sample nu extrapolate positions =>
      return .tensor (← sample c nu extrapolate positions)
  | .trend first last extrapolate =>
      return .monotonicity (← trend c first last extrapolate)
  | .crossing p => return .number (← crossing c none p)
  | .crossingBetween first last p =>
      return .number (← crossing c (some (first, last)) p)
  | .table first last k => return .lines (← table c first last k)
  | _ => .error .wrongKind

/-- Carries one command out. -/
def step (c : Option (Curve α)) (command : Command α) :
    Option (Curve α) × Except (Fault α) (Reply α) :=
  match make? command with
  | some (.ok made) => (made.curve, .ok (.made made.curve made.notices))
  | some (.error fault) => (c, .error fault)
  | none => (c, ask c command)

/-- Carries commands out one after the other, from a session without a
    curve. -/
def runFrom (c : Option (Curve α)) :
    List (Command α) → List (Except (Fault α) (Reply α))
  | [] => []
  | command :: rest =>
      let (c, reply) := step c command
      reply :: runFrom c rest

/-- The answers to a list of commands in a new session. -/
def run (commands : List (Command α)) :
    List (Except (Fault α) (Reply α)) :=
  runFrom none commands

end Session

end PiecewiseCubic
