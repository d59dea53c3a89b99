import Mathlib
import PiecewiseCubic.Session

/-! # Cells that are filled with numbers

    A row of numbers is a table with one extent, and a row of as many pairs is
    one with two.  Both are read back as they were filled. -/

namespace PiecewiseCubic

namespace Cell

variable {α : Type}

/-- A row of numbers. -/
def ofNumbers (xs : List α) : Cell α := .row (xs.map .number)

/-- A row of pairs of numbers. -/
def ofPoints (points : List (Point α)) : Cell α :=
  .row (points.map fun p => ofNumbers [p.x, p.y])

theorem leavesOf_map {β : Type} (f : β → Cell α) (bs : List β) :
    leavesOf (bs.map f) = bs.flatMap fun b => (f b).leaves := by
  induction bs with
  | nil => rfl
  | cons b bs ih => rw [List.map_cons, leavesOf, ih, List.flatMap_cons]

/-- Tables of one shape make a table with one more extent. -/
theorem shape?_row {β : Type} {f : β → Cell α} {s : List ℕ}
    (hf : ∀ b, (f b).shape? = some s) (b : β) (bs : List β) :
    (Cell.row ((b :: bs).map f)).shape? = some ((bs.length + 1) :: s) := by
  have hall : ∀ bs : List β,
      shapes? (bs.map f) = some (List.replicate bs.length s) := by
    intro bs
    induction bs with
    | nil => rfl
    | cons b bs ih =>
        rw [List.map_cons, shapes?, hf, ih]
        rfl
  rw [shape?, hall]
  simp [List.replicate_succ]

theorem leaves_ofNumbers (xs : List α) :
    (ofNumbers xs).leaves = xs.map .number := by
  rw [ofNumbers, leaves, leavesOf_map]
  exact List.flatMap_pure_eq_map _ xs

theorem shape?_ofNumbers (xs : List α) :
    (ofNumbers xs).shape? = some [xs.length] := by
  cases xs with
  | nil => rfl
  | cons x xs =>
      have hnumber : ∀ a : α, (Cell.number a).shape? = some [] := fun _ => rfl
      exact shape?_row hnumber x xs

theorem leaves_ofPoints (points : List (Point α)) :
    (ofPoints points).leaves
      = (points.flatMap fun p => [p.x, p.y]).map .number := by
  rw [ofPoints, leaves, leavesOf_map, List.map_flatMap]
  refine List.flatMap_congr fun p _ => ?_
  exact leaves_ofNumbers [p.x, p.y]

theorem shape?_ofPoints (p : Point α) (points : List (Point α)) :
    (ofPoints (p :: points)).shape? = some [points.length + 1, 2] :=
  shape?_row (fun p => shape?_ofNumbers [p.x, p.y]) p points

variable [Scalar α]

/-- What succeeds for each item succeeds for all of them. -/
theorem mapM_eq_ok {β γ δ ε : Type} {f : β → γ} {g : γ → Except ε δ} {h : β → δ}
    (hfg : ∀ b, g (f b) = .ok (h b)) (bs : List β) :
    (bs.map f).mapM g = .ok (bs.map h) := by
  induction bs with
  | nil => rfl
  | cons b bs ih =>
      rw [List.map_cons, List.mapM_cons, hfg, ih]
      rfl

/-- A table whose leaves are numbers is read as these numbers. -/
theorem tensor_eq {c : Cell α} {s : List ℕ} {xs : List α}
    (hshape : c.shape? = some s) (hs : s.length ≤ extentLimit)
    (hleaves : c.leaves = xs.map .number) : c.tensor = .ok ⟨s, xs⟩ := by
  have hextents : c.extents = .ok s := by
    rw [extents, hshape]
    exact if_neg (not_lt.mpr hs)
  have hentries : (xs.map number).mapM entry = .ok (xs.map id) := by
    refine mapM_eq_ok ?_ xs
    intro x
    rfl
  rw [tensor, hextents, hleaves, hentries, List.map_id]
  rfl

theorem entries_ofNumbers (xs : List α) : (ofNumbers xs).entries = .ok xs := by
  have hs : [xs.length].length ≤ extentLimit := by simp [extentLimit]
  rw [entries, tensor_eq (shape?_ofNumbers xs) hs (leaves_ofNumbers xs)]
  rfl

/-- A row of pairs is the table of their numbers. -/
theorem pointTable_ofPoints (p : Point α) (points : List (Point α)) :
    (ofPoints (p :: points)).pointTable
      = .ok ⟨[points.length + 1, 2],
        (p :: points).flatMap fun p => [p.x, p.y]⟩ := by
  have hpairs : ((p :: points).map fun p => ofNumbers [p.x, p.y]).mapM pair
      = .ok ((p :: points).map fun p => (.number p.x, .number p.y)) := by
    refine mapM_eq_ok ?_ (p :: points)
    intro p
    rfl
  have hs : [points.length + 1, 2].length ≤ extentLimit := by
    simp [extentLimit]
  have hitems : (ofPoints (p :: points)).items?
      = some ((p :: points).map fun p => ofNumbers [p.x, p.y]) := rfl
  rw [pointTable, hitems]
  show List.mapM pair _ >>= _ = _
  rw [hpairs]
  show (Cell.row (List.map _ (List.map _ _))).tensor = _
  rw [List.map_map]
  exact tensor_eq (shape?_ofPoints p points) hs (leaves_ofPoints (p :: points))

end Cell

end PiecewiseCubic
