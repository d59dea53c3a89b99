import PiecewiseCubic.Scalar

/-! # Tridiagonal matrices — storage by columns

    A matrix keeps, for each column, the element on the diagonal and its two
    neighbours above and below.  A cyclic matrix has two corner elements more.
    `get` reads any element, those outside of this pattern being zero, and
    `toDense` lists all of them.  `write` changes what is stored at one place
    of the pattern, `writeBand` what is stored on a whole diagonal. -/

namespace PiecewiseCubic

/-- The first of some places. -/
def firstPlace {n : Nat} : Fin (n + 1) := ⟨0, Nat.succ_pos n⟩

/-- The place before another one; the first place stays where it is. -/
def placeBefore {n : Nat} (i : Fin n) : Fin n :=
  ⟨i.val - 1, Nat.lt_of_le_of_lt (Nat.sub_le i.val 1) i.isLt⟩

theorem val_placeBefore_add_one {n : Nat} {i : Fin n} (h : 0 < i.val) :
    (placeBefore i).val + 1 = i.val := Nat.sub_add_cancel h

/-- The stored part of one column. -/
structure Column (α : Type) where
  /-- The element above the diagonal; the first column has none, and what it
      keeps is not looked at. -/
  above : α
  /-- The element on the diagonal. -/
  diag : α
  /-- The element below the diagonal; the last column has none, and what it
      keeps is not looked at. -/
  below : α
  deriving Repr

/-- A matrix of order `n` with three diagonals, and with the elements in its
    top right and bottom left corner if it is cyclic. -/
structure Tridiagonal (α : Type) (n : Nat) where
  cyclic : Bool
  columns : Vector (Column α) n
  topRight : α
  bottomLeft : α

/-- The nonzero part of one row: the element before the diagonal, the one on
    it and the one behind it. -/
structure Row (α : Type) where
  left : α
  diag : α
  right : α

namespace Tridiagonal

variable {α : Type} {n : Nat}

/-- Where an element of the pattern is stored. -/
inductive Place (n : Nat) where
  | above (column : Fin n)
  | diag (column : Fin n)
  | below (column : Fin n)
  | topRight
  | bottomLeft
  deriving DecidableEq

/-- One of the three diagonals. -/
inductive Band where
  | above
  | diag
  | below
  deriving DecidableEq, Repr

/-- The diagonal that a place is on, unless it is a corner. -/
def Place.band? : Place n → Option Band
  | .above _ => some .above
  | .diag _ => some .diag
  | .below _ => some .below
  | .topRight => none
  | .bottomLeft => none

/-- The place of element `(i, j)`; a corner is a place of its own only where
    the three diagonals do not reach it. -/
def place? (cyclic : Bool) (i j : Fin n) : Option (Place n) :=
  if i = j then some (.diag j)
  else if i.val + 1 = j.val then some (.above j)
  else if j.val + 1 = i.val then some (.below j)
  else if cyclic = true ∧ i.val = 0 ∧ j.val + 1 = n then some .topRight
  else if cyclic = true ∧ i.val + 1 = n ∧ j.val = 0 then some .bottomLeft
  else none

/-- The number stored at a place. -/
def read (M : Tridiagonal α n) : Place n → α
  | .above j => M.columns[j].above
  | .diag j => M.columns[j].diag
  | .below j => M.columns[j].below
  | .topRight => M.topRight
  | .bottomLeft => M.bottomLeft

/-- Stores a number at a place. -/
def write (M : Tridiagonal α n) (p : Place n) (v : α) : Tridiagonal α n :=
  match p with
  | .above j =>
      { M with columns := M.columns.set j { M.columns[j] with above := v } }
  | .diag j =>
      { M with columns := M.columns.set j { M.columns[j] with diag := v } }
  | .below j =>
      { M with columns := M.columns.set j { M.columns[j] with below := v } }
  | .topRight => { M with topRight := v }
  | .bottomLeft => { M with bottomLeft := v }

/-- Writing keeps the pattern. -/
theorem write_cyclic (M : Tridiagonal α n) (p : Place n) (v : α) :
    (M.write p v).cyclic = M.cyclic := by
  cases p <;> rfl

/-- A place holds what was written there last. -/
theorem read_write_self (M : Tridiagonal α n) (p : Place n) (v : α) :
    (M.write p v).read p = v := by
  cases p with
  | above j => simp [write, read]
  | diag j => simp [write, read]
  | below j => simp [write, read]
  | topRight => rfl
  | bottomLeft => rfl

/-- A part of a column that a new column leaves as it was. -/
theorem part_set (columns : Vector (Column α) n) {j k : Fin n}
    {c : Column α} (part : Column α → α)
    (same : j = k → part c = part columns[k]) :
    part (columns.set j c)[k] = part columns[k] := by
  rw [Fin.getElem_fin, Vector.getElem_set]
  split
  case isTrue h => exact same (Fin.ext h)
  case isFalse h => rfl

/-- Writing changes no other place. -/
theorem read_write_of_ne (M : Tridiagonal α n) {p q : Place n} (v : α)
    (ne : q ≠ p) : (M.write p v).read q = M.read q := by
  cases p with
  | above j =>
      cases q with
      | above k =>
          exact part_set _ Column.above fun e => absurd (by rw [e]) ne
      | diag k => exact part_set _ Column.diag fun e => by rw [e]
      | below k => exact part_set _ Column.below fun e => by rw [e]
      | topRight | bottomLeft => rfl
  | diag j =>
      cases q with
      | above k => exact part_set _ Column.above fun e => by rw [e]
      | diag k =>
          exact part_set _ Column.diag fun e => absurd (by rw [e]) ne
      | below k => exact part_set _ Column.below fun e => by rw [e]
      | topRight | bottomLeft => rfl
  | below j =>
      cases q with
      | above k => exact part_set _ Column.above fun e => by rw [e]
      | diag k => exact part_set _ Column.diag fun e => by rw [e]
      | below k =>
          exact part_set _ Column.below fun e => absurd (by rw [e]) ne
      | topRight | bottomLeft => rfl
  | topRight =>
      cases q with
      | above k | diag k | below k => rfl
      | topRight => exact absurd rfl ne
      | bottomLeft => rfl
  | bottomLeft =>
      cases q with
      | above k | diag k | below k => rfl
      | topRight => rfl
      | bottomLeft => exact absurd rfl ne

/-- What a diagonal stores, one number a column. -/
def band (M : Tridiagonal α n) : Band → Vector α n
  | .above => M.columns.map Column.above
  | .diag => M.columns.map Column.diag
  | .below => M.columns.map Column.below

/-- Stores one number a column in a diagonal. -/
def writeBand (M : Tridiagonal α n) (b : Band) (v : Vector α n) :
    Tridiagonal α n :=
  { M with
    columns := Vector.ofFn fun j =>
      match b with
      | .above => { M.columns[j] with above := v[j] }
      | .diag => { M.columns[j] with diag := v[j] }
      | .below => { M.columns[j] with below := v[j] } }

variable [Scalar α]

open Scalar

/-- The zero matrix. -/
def zero (cyclic : Bool) : Tridiagonal α n where
  cyclic := cyclic
  columns := Vector.replicate n ⟨0, 0, 0⟩
  topRight := 0
  bottomLeft := 0

/-- Element `(i, j)`, zero outside of the pattern. -/
def get (M : Tridiagonal α n) (i j : Fin n) : α :=
  match place? M.cyclic i j with
  | some p => M.read p
  | none => 0

/-- The part of element `(i, j)` that the three diagonals hold. -/
def bandEntry (M : Tridiagonal α n) (i j : Fin n) : α :=
  if i = j then (M.columns.get j).diag
  else if i.val + 1 = j.val then (M.columns.get j).above
  else if j.val + 1 = i.val then (M.columns.get j).below
  else 0

/-- All elements, row by row.  The corners of a cyclic matrix come on top of
    its diagonals from order three on. -/
def toDense (M : Tridiagonal α n) : Vector (Vector α n) n :=
  Vector.ofFn fun i => Vector.ofFn fun j =>
    if M.cyclic = true ∧ 2 < n ∧ i.val = 0 ∧ j.val + 1 = n then
      M.bandEntry i j + M.topRight
    else if M.cyclic = true ∧ 2 < n ∧ i.val + 1 = n ∧ j.val = 0 then
      M.bandEntry i j + M.bottomLeft
    else M.bandEntry i j

/-- The three diagonals as they are stored, each with one number a column:
    that above the main one, the main one and that below it. -/
def bands (M : Tridiagonal α n) : Vector (Vector α n) 3 :=
  #v[M.band .above, M.band .diag, M.band .below]

/-- The matrix with the given rows; what a row has beyond the two ends of the
    matrix is dropped. -/
def ofRows (row : Fin n → Row α) : Tridiagonal α n where
  cyclic := false
  columns := Vector.ofFn fun j =>
    { above := if 0 < j.val then (row (placeBefore j)).right else 0
      diag := (row j).diag
      below := if h : j.val + 1 < n then (row ⟨j + 1, h⟩).left else 0 }
  topRight := 0
  bottomLeft := 0

/-- A row whose neighbours on both sides are the same one, which has the sum
    of both elements. -/
def foldedRow (row : Row α) : Row α :=
  { row with left := row.left + row.right, right := row.left + row.right }

/-- The cyclic matrix with the given rows: the first row begins in the last
    column and the last row ends in the first one.  In a matrix of order two
    the elements before and behind the diagonal are the same one, and add
    up. -/
def ofCyclicRows (row : Fin (n + 2) → Row α) : Tridiagonal α (n + 2) :=
  if n = 0 then
    { ofRows fun i => foldedRow (row i) with cyclic := true }
  else
    { ofRows row with
      cyclic := true
      topRight := (row firstPlace).left
      bottomLeft := (row (Fin.last (n + 1))).right }

end Tridiagonal

end PiecewiseCubic
