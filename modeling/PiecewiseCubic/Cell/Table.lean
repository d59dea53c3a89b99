import PiecewiseCubic.Cell
import PiecewiseCubic.Fault
import PiecewiseCubic.Tensor

/-! # Tables in cells

    A table has rows of one shape all the way down, which is looked at before
    its entries are read.  A blank entry is read as the missing scalar, a text
    as the number that it spells. -/

namespace PiecewiseCubic.Cell

variable {α : Type}

/-- The number in a cell, if it holds one. -/
def number? : Cell α → Except (Fault α) α
  | .number a => .ok a
  | _ => .error .wrongKind

/-- The number in a cell, nothing if it is blank. -/
def optional : Cell α → Except (Fault α) (Option α)
  | .number a => .ok (some a)
  | .blank => .ok none
  | _ => .error .wrongKind

mutual

/-- What is in a cell that is no row, row by row. -/
def leaves : Cell α → List (Cell α)
  | .row items => leavesOf items
  | c => [c]

/-- What is in cells that is no row. -/
def leavesOf : List (Cell α) → List (Cell α)
  | [] => []
  | c :: cs => leaves c ++ leavesOf cs

end

mutual

/-- The extents of a table, unless it has rows of different shapes. -/
def shape? : Cell α → Option (List Nat)
  | .row items =>
      match shapes? items with
      | none => none
      | some [] => some [0]
      | some (s :: ss) =>
          if ss.all (· == s) then some ((ss.length + 1) :: s) else none
  | _ => some []

/-- The extents of each of some tables. -/
def shapes? : List (Cell α) → Option (List (List Nat))
  | [] => some []
  | c :: cs =>
      match shape? c, shapes? cs with
      | some s, some ss => some (s :: ss)
      | _, _ => none

end

/-- The most extents of a table. -/
def extentLimit : Nat := 64

/-- The extents of a table. -/
def extents (c : Cell α) : Except (Fault α) (List Nat) :=
  match c.shape? with
  | some shape =>
      if extentLimit < shape.length then .error .unreadable else .ok shape
  | none => .error .unreadable

variable [Scalar α]

/-- The number that an entry of a table is read as. -/
def entry : Cell α → Except (Fault α) α
  | .number a => .ok a
  | .blank => .ok Scalar.missing
  | .text s =>
      match Numeral.looseNumeral? s.toList with
      | some n => .ok (Scalar.ofNumeral n)
      | none => .error .unreadable
  | .row _ => .error .unreadable
  | .record _ => .error .wrongKind

/-- The table in a cell. -/
def tensor (c : Cell α) : Except (Fault α) (Tensor α) := do
  let shape ← c.extents
  let entries ← c.leaves.mapM entry
  return ⟨shape, entries⟩

/-- All numbers of a table, row by row. -/
def entries (c : Cell α) : Except (Fault α) (List α) :=
  c.tensor.map Tensor.entries

/-- The numbers in two cells, of which the second is read first if they are
    exchanged. -/
def both (exchanged : Bool) (c d : Cell α) : Except (Fault α) (α × α) := do
  match ← (Cell.row (inOrder exchanged c d)).tensor with
  | ⟨[2], [a, b]⟩ => return if exchanged then (b, a) else (a, b)
  | _ => .error .unreadable

/-- The first two parts of a point. -/
def pair (c : Cell α) : Except (Fault α) (Cell α × Cell α) :=
  match c with
  | .record _ => .error .noSuchKey
  | c =>
      match c.items? with
      | some (x :: y :: _) => .ok (x, y)
      | some _ => .error .noSuchElement
      | none => .error .wrongKind

/-- The table of the first two parts of all points; the points are taken apart
    before any part is read. -/
def pointTable (c : Cell α) : Except (Fault α) (Tensor α) := do
  match c.items? with
  | none => .error .wrongKind
  | some items =>
      let pairs ← items.mapM pair
      (Cell.row (pairs.map fun (x, y) => .row [x, y])).tensor

end PiecewiseCubic.Cell
