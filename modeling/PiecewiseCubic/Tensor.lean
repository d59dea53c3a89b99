/-! # Tensors — numbers in rows of rows

    A tensor has a list of extents and as many entries as their product,
    the last index running fastest. -/

namespace PiecewiseCubic

/-- Entries with the extents of their arrangement, outermost first; a single
    number has none. -/
structure Tensor (α : Type) where
  shape : List Nat
  entries : List α
  deriving Repr

namespace Tensor

variable {α : Type}

/-- How many entries an arrangement has. -/
def volume (shape : List Nat) : Nat := shape.foldr (· * ·) 1

/-- A row of entries. -/
def ofList (xs : List α) : Tensor α := ⟨[xs.length], xs⟩

/-- The same arrangement with other entries. -/
def withEntries {β : Type} (t : Tensor α) (entries : List β) : Tensor β :=
  ⟨t.shape, entries⟩

end Tensor

end PiecewiseCubic
