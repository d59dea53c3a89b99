import PiecewiseCubic.Cell.Operand
import PiecewiseCubic.Tridiagonal.Solve

/-! # Requests to a tridiagonal matrix

    A session holds one matrix of fixed order.  Requests read, replace and
    add to its elements, with indices as a caller gives them, list it or
    solve with it.  A truth value as the second index addresses all places of
    a diagonal, or none of them.  A change that is refused changes nothing.  A
    change is answered by the storage of the matrix, which is read when the
    session is over: all changes are answered by what is stored then. -/

namespace PiecewiseCubic.Tridiagonal

/-- What can be asked of a matrix. -/
inductive Request (α : Type) where
  | get (i j : Literal)
  | set (i j : Literal) (v : Cell α)
  | add (i j : Literal) (v : Cell α)
  /-- Replaces several elements, up to one that is refused. -/
  | fill (entries : List (Literal × Literal × Cell α))
  | dense
  | solve (d : Cell α)

/-- What a matrix answers. -/
inductive Answer (α : Type) where
  | number (a : α)
  /-- The diagonals and the two corners that are stored at the end. -/
  | stored (bands : List (List α)) (topRight bottomLeft : α)
  | done
  | dense (rows : List (List α))
  | vector (x : List α)

variable {α : Type} [Scalar α] {n : Nat}

open Scalar

/-- Whether an index is a number from zero up to but not at the order. -/
def isIndex (n : Nat) : Literal → Except (Fault α) Bool
  | .bool b => .ok (b.toNat < n)
  | .int k => .ok (0 ≤ k && k < n)
  | .real x => .ok (decide (0 ≤ x) && decide (x < Float.ofNat n))
  | _ => .error .wrongKind

/-- Whether an index is written as a real number, whole or not. -/
def isReal : Literal → Bool
  | .real _ => true
  | _ => false

/-- The number that an index is, for the distance of two indices. -/
def indexValue : Literal → Float
  | .bool b => Float.ofNat b.toNat
  | .int k => Float.ofInt k
  | .real x => x
  | _ => 0

/-- The row or column that an index names. -/
def toFin? (n : Nat) (l : Literal) : Option (Fin n) :=
  l.toInt?.bind fun k =>
    if h : 0 ≤ k ∧ k.toNat < n then some ⟨k.toNat, h.2⟩ else none

/-- What two indices address. -/
inductive Spot (n : Nat) where
  | place (p : Place n)
  /-- All places of a diagonal, also those that hold no element. -/
  | whole (b : Band)
  /-- No place of a diagonal. -/
  | nowhere
  deriving DecidableEq

/-- What two indices address with a place of a diagonal: the place itself if
    both are whole numbers. -/
def spotOn (i j : Literal) (p : Place n) (b : Band) :
    Except (Fault α) (Spot n) :=
  if isReal i || isReal j then .error .noSuchElement
  else
    match j with
    | .bool true => .ok (.whole b)
    | .bool false => .ok .nowhere
    | _ => .ok (.place p)

/-- What the given indices address, if it is in the pattern. -/
def locate (M : Tridiagonal α n) (i j : Literal) :
    Except (Fault α) (Option (Spot n)) := do
  if !(← isIndex n i) then .error (.outsideMatrix i j n)
  if !(← isIndex n j) then .error (.outsideMatrix i j n)
  match toFin? n i, toFin? n j with
  | some a, some b =>
      match place? M.cyclic a b with
      | none => .ok none
      | some p =>
          match p.band? with
          | none => .ok (some (.place p))
          | some band => (spotOn i j p band).map some
  | _, _ =>
      if Float.abs (indexValue i - indexValue j) ≤ 1 then
        .error .noSuchElement
      else .ok none

/-- The element with the given indices. -/
def getAt (M : Tridiagonal α n) (i j : Literal) : Except (Fault α) α := do
  match ← M.locate i j with
  | some (.place p) => return M.read p
  | some _ => .error .wrongKind
  | none => return 0

/-- What the given indices address, which must be in the pattern. -/
def spotAt (M : Tridiagonal α n) (i j : Literal) :
    Except (Fault α) (Spot n) := do
  match ← M.locate i j with
  | some spot => return spot
  | none => .error (.outsidePattern i j)

/-- Whether a table can be laid over so many rows of `n` numbers: an extent of
    one is repeated. -/
def fits (rows n : Nat) : List Nat → Bool
  | [] => true
  | [k] => k == 1 || k == n
  | [m, k] => (m == 1 || m == rows) && (k == 1 || k == n)
  | _ => false

/-- The row that a table becomes when it is laid over one. -/
def laidOver (n : Nat) (t : Tensor α) : Vector α n :=
  Vector.ofFn fun j => t.entries[j.val]?.getD (t.entries.headD 0)

/-- The most extents of a table that is laid over a diagonal. -/
def overlayLimit : Nat := 2

/-- The table that is to replace a diagonal. -/
def overlay (v : Cell α) : Except (Fault α) (Tensor α) := do
  let shape ← v.extents
  if overlayLimit < shape.length then .error .unreadable
  v.tensor

/-- Replaces the element with the given indices. -/
def setAt (M : Tridiagonal α n) (i j : Literal) (v : Cell α) :
    Except (Fault α) (Tridiagonal α n) := do
  match ← M.spotAt i j with
  | .place p => return M.write p (← v.entry)
  | .whole b =>
      let t ← overlay v
      if fits 1 n t.shape then return M.writeBand b (laidOver n t)
      else .error .unreadable
  | .nowhere =>
      let t ← overlay v
      if fits 0 n t.shape then return M else .error .unreadable

/-- Adds to the element with the given indices. -/
def addAt (M : Tridiagonal α n) (i j : Literal) (v : Cell α) :
    Except (Fault α) (Tridiagonal α n) := do
  match ← M.spotAt i j with
  | .place p => return M.write p (M.read p + (← v.operand))
  | .whole b =>
      let t ← v.numbers
      if fits 1 n t.shape then
        return M.writeBand b
          (Vector.zipWith (· + ·) (M.band b) (laidOver n t))
      else .error .unreadable
  | .nowhere =>
      let t ← v.numbers
      if fits 0 n t.shape then return M else .error .unreadable

/-- A matrix with the fault that stopped its being changed, if one did. -/
abbrev Changed (α : Type) (n : Nat) :=
  Tridiagonal α n × Option (Fault α)

/-- The matrix that an attempt to change it leaves behind. -/
def attempt (M : Tridiagonal α n) :
    Except (Fault α) (Tridiagonal α n) → Changed α n
  | .ok changed => (changed, none)
  | .error fault => (M, some fault)

/-- Replaces elements one after the other, up to one that is refused. -/
def fillAt (M : Tridiagonal α n) :
    List (Literal × Literal × Cell α) → Changed α n
  | [] => (M, none)
  | (i, j, v) :: rest =>
      match M.setAt i j v with
      | .ok M => M.fillAt rest
      | .error fault => (M, some fault)

/-- The solution for a right-hand side, which must be a row of as many
    numbers as the matrix has rows. -/
def solveFor (M : Tridiagonal α n) (d : Cell α) :
    Except (Fault α) (Vector α n) := do
  let t ← d.tensor
  if h : t.shape = [n] ∧ t.entries.length = n then
    match M.solve ⟨t.entries.toArray, by simp [h.2]⟩ with
    | some x => return x
    | none => .error .singular
  else .error .lengthMismatch

/-- What is stored in a matrix. -/
def stored (M : Tridiagonal α n) : Answer α :=
  .stored (M.bands.toList.map Vector.toList) M.topRight M.bottomLeft

/-- The matrix after a request, with the fault of a change. -/
def change (M : Tridiagonal α n) : Request α → Changed α n
  | .set i j v => M.attempt (M.setAt i j v)
  | .add i j v => M.attempt (M.addAt i j v)
  | .fill entries => M.fillAt entries
  | _ => (M, none)

/-- The matrix after a request. -/
def after (M : Tridiagonal α n) (request : Request α) : Tridiagonal α n :=
  (M.change request).1

/-- The answer to a change that was carried out, or its fault. -/
def answerTo (changed : Changed α n) (answer : Answer α) :
    Except (Fault α) (Answer α) :=
  match changed.2 with
  | some fault => .error fault
  | none => .ok answer

/-- The answer of a matrix to a request, given the matrix at the end of the
    session. -/
def answer (atEnd M : Tridiagonal α n) (request : Request α) :
    Except (Fault α) (Answer α) :=
  match request with
  | .get i j => (M.getAt i j).map .number
  | .fill _ => answerTo (M.change request) .done
  | .dense => .ok (.dense (M.toDense.toList.map Vector.toList))
  | .solve d => (M.solveFor d).map fun x => .vector x.toList
  | .set _ _ _ => answerTo (M.change request) atEnd.stored
  | .add _ _ _ => answerTo (M.change request) atEnd.stored

/-- Carries requests out one after the other, given the matrix at the end. -/
def answersFrom (atEnd M : Tridiagonal α n) :
    List (Request α) → List (Except (Fault α) (Answer α))
  | [] => []
  | request :: rest =>
      answer atEnd M request :: answersFrom atEnd (M.after request) rest

/-- The answers of a matrix to a list of requests. -/
def answers (M : Tridiagonal α n) (requests : List (Request α)) :
    List (Except (Fault α) (Answer α)) :=
  answersFrom (requests.foldl after M) M requests

/-- The bytes of the three diagonals for each column. -/
def columnBytes : Nat := 24

/-- The least count of bytes that cannot be told. -/
def byteLimit : Nat := Nat.pow 2 63

/-- The least count of bytes for which there is no room. -/
def roomLimit : Nat := Nat.pow 2 37

/-- The order that a literal names, which must be positive. -/
def orderOf : Literal → Except (Fault α) Nat
  | .bool b => .error (if b then .wrongKind else .emptyMatrix)
  | .int k =>
      if k ≤ 0 then .error .emptyMatrix
      else if byteLimit ≤ columnBytes * k.toNat then .error .hugeMatrix
      else if roomLimit ≤ columnBytes * k.toNat then .error .noRoom
      else .ok k.toNat
  | .real x => .error (if 0 < x then .wrongKind else .emptyMatrix)
  | _ => .error .wrongKind

/-- The answers of a new matrix of the given order to a list of requests. -/
def run (order cyclic : Literal) (requests : List (Request α)) :
    Except (Fault α) (List (Except (Fault α) (Answer α))) := do
  let n ← orderOf order
  return answers (zero cyclic.isTruthy : Tridiagonal α n) requests

end PiecewiseCubic.Tridiagonal
