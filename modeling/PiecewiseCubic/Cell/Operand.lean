import PiecewiseCubic.Cell.Table

/-! # Cells to calculate with

    What is calculated with must be numbers already: a text is not read.  One
    number may stand alone or in a table without others. -/

namespace PiecewiseCubic.Cell

variable {α : Type}

/-- Whether a cell holds neither a number nor a text. -/
def isForeign : Cell α → Bool
  | .number _ | .text _ => false
  | _ => true

/-- The number in an entry, which must hold one. -/
def operandEntry : Cell α → Except (Fault α) α
  | .number a => .ok a
  | _ => .error .notNumeric

/-- The table in a cell, of which everything must be a number. -/
def numbers (c : Cell α) : Except (Fault α) (Tensor α) := do
  let shape ← c.extents
  let entries ← c.leaves.mapM operandEntry
  return ⟨shape, entries⟩

/-- The table in a cell to calculate with, in which what is neither a number
    nor a text is told apart. -/
def operands (c : Cell α) : Except (Fault α) (Tensor α) := do
  let _ ← c.extents
  if c.leaves.any isForeign then .error .wrongKind
  c.numbers

/-- The only number in a cell. -/
def operand (c : Cell α) : Except (Fault α) α := do
  match (← c.operands).entries with
  | [a] => return a
  | _ => .error .unreadable

end PiecewiseCubic.Cell
