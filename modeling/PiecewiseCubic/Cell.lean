/-! # Cells — numbers, and what stands in their place

    Where a number or a table of numbers is expected, a caller may leave it
    out or give something else.  A cell keeps what was given until it is known
    what it has to be. -/

namespace PiecewiseCubic

/-- What a caller gives where numbers are expected. -/
inductive Cell (α : Type) where
  | number (a : α)
  /-- Nothing was given. -/
  | blank
  /-- A text, which may spell a number. -/
  | text (s : String)
  | row (items : List (Cell α))
  /-- Parts with names. -/
  | record (entries : List (String × Cell α))

namespace Cell

variable {α : Type}

/-- The cell itself, nothing if it is blank. -/
def given? : Cell α → Option (Cell α)
  | .blank => none
  | c => some c

/-- What a cell consists of: the items of a row, the characters of a text or
    the names in a record. -/
def items? : Cell α → Option (List (Cell α))
  | .row items => some items
  | .text s => some (s.toList.map fun c => .text c.toString)
  | .record entries => some (entries.map fun e => .text e.1)
  | _ => none

/-- Whether a cell holds a row. -/
def isRow : Cell α → Bool
  | .row _ => true
  | _ => false

/-- Two cells, in the other order if they are exchanged. -/
def inOrder (exchanged : Bool) (c d : Cell α) : List (Cell α) :=
  if exchanged then [d, c] else [c, d]

section Same

variable [BEq α]

mutual

/-- Whether two cells hold the same. -/
def same : Cell α → Cell α → Bool
  | .number a, .number b => a == b
  | .blank, .blank => true
  | .text s, .text t => s == t
  | .row xs, .row ys => sameItems xs ys
  | .record es, .record fs => es.length == fs.length && sameEntries es fs
  | _, _ => false

/-- Whether two rows hold the same in the same order. -/
def sameItems : List (Cell α) → List (Cell α) → Bool
  | [], [] => true
  | x :: xs, y :: ys => same x y && sameItems xs ys
  | _, _ => false

/-- Whether each name is found, with the same part, in the second record. -/
def sameEntries :
    List (String × Cell α) → List (String × Cell α) → Bool
  | [], _ => true
  | (k, v) :: es, fs =>
      fs.any (fun f => k == f.1 && same v f.2) && sameEntries es fs

end

instance : BEq (Cell α) := ⟨same⟩

end Same

end Cell

end PiecewiseCubic
