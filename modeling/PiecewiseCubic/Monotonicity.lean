import PiecewiseCubic.Literal.Printer
import PiecewiseCubic.Scalar

/-! # Monotonicity — how a function runs over an interval

    The monotonicities of adjacent intervals combine to that of their union:
    a constant piece changes nothing, a mixed one spoils everything, and two
    directions make a mixed whole. -/

namespace PiecewiseCubic

/-- How a function runs over an interval. -/
inductive Monotonicity where
  | decreasing
  | mixed
  | increasing
  | constant
  deriving DecidableEq, Repr, Inhabited

namespace Monotonicity

/-- The number that stands for a monotonicity. -/
def code : Monotonicity → Int
  | .decreasing => -1
  | .mixed => 0
  | .increasing => 1
  | .constant => 3

/-- The monotonicity that a number stands for. -/
def ofCode? : Int → Option Monotonicity
  | -1 => some .decreasing
  | 0 => some .mixed
  | 1 => some .increasing
  | 3 => some .constant
  | _ => none

/-- Why literals are not combined. -/
inductive Refusal where
  /-- A literal is no code. -/
  | noCode (given : Literal)
  /-- A literal that consists of nothing stands in place of a list. -/
  | noList

/-- What is said about literals that are not combined. -/
def Refusal.message? : Refusal → Option String
  | .noCode given => some (given.shown ++ " is not a valid Monotonicity")
  | .noList => none

/-- The monotonicity whose code a literal equals. -/
def ofLiteral (l : Literal) : Except Refusal Monotonicity :=
  match l.toInt?.bind ofCode? with
  | some m => .ok m
  | none => .error (.noCode l)

/-- The monotonicity of the union of two adjacent intervals. -/
def combine (r s : Monotonicity) : Monotonicity :=
  if r = .constant then s
  else if s = .constant then r
  else if r = s then r
  else .mixed

/-- A constant piece behind changes nothing. -/
theorem combine_constant_right (m : Monotonicity) :
    combine m .constant = m := by
  cases m <;> rfl

/-- A mixed piece in front spoils everything. -/
theorem combine_mixed_left (m : Monotonicity) : combine .mixed m = .mixed := by
  cases m <;> rfl

/-- The order of two pieces does not matter. -/
theorem combine_comm (r s : Monotonicity) : combine r s = combine s r := by
  cases r <;> cases s <;> rfl

/-- It does not matter which of three pieces are combined first. -/
theorem combine_assoc (r s t : Monotonicity) :
    combine (combine r s) t = combine r (combine s t) := by
  cases r <;> cases s <;> cases t <;> rfl

/-- Combines two literals, of which the first is read first. -/
def combineLiterals (r s : Literal) : Except Refusal Monotonicity :=
  match ofLiteral r with
  | .error refusal => .error refusal
  | .ok r => (ofLiteral s).map (combine r)

/-- Combines literals from the left, reading each one when its turn comes,
    and stops as soon as the whole is mixed.  Answers the whole and how many
    literals were read. -/
def reduceLiterals (whole : Monotonicity) :
    List Literal → Except Refusal (Monotonicity × Nat)
  | [] => .ok (whole, 0)
  | l :: ls =>
      match ofLiteral l with
      | .error refusal => .error refusal
      | .ok m =>
          let whole := combine whole m
          if whole = .mixed then .ok (whole, 1)
          else (reduceLiterals whole ls).map fun (r, n) => (r, n + 1)

/-- Combines monotonicities from the left and stops as soon as the whole is
    mixed. -/
def reduce (whole : Monotonicity) : List Monotonicity → Monotonicity
  | [] => whole
  | m :: ms =>
      let whole := combine whole m
      if whole = .mixed then whole else reduce whole ms

/-- Combines what a literal consists of from the left onto a literal that is
    read first. -/
def reduceAll (start values : Literal) :
    Except Refusal (Monotonicity × Nat) :=
  match ofLiteral start, values.items? with
  | .error refusal, _ => .error refusal
  | .ok _, none => .error .noList
  | .ok whole, some ls => reduceLiterals whole ls

section Sign

variable {α : Type} [Scalar α]

open Scalar

/-- The monotonicity of a straight line of the given slope, constant if the
    slope is at most `tol` in magnitude. -/
def ofSlope (slope tol : α) : Monotonicity :=
  if abs slope ≤ tol then .constant
  else if 0 < slope then .increasing
  else .decreasing

end Sign

end Monotonicity

end PiecewiseCubic
