import PiecewiseCubic.Literal.Basic

/-! # Families of curves — what fixes a curve beyond its sampling points

    A family is known by its name in any case.  The full family takes the
    slopes at both ends, the others take none. -/

namespace PiecewiseCubic

/-- The four kinds of curves through given points. -/
inductive Family where
  /-- The slopes at both ends are given. -/
  | full
  /-- The second derivative vanishes at both ends. -/
  | natural
  /-- The first two derivatives agree at the two ends. -/
  | periodic
  /-- The curve stays between neighbouring points. -/
  | monotonic
  deriving DecidableEq, Repr, Inhabited

/-- Why a boundary slope does not fit the family. -/
inductive SlopeMismatch where
  | needsBoth
  | onlyForFull
  deriving DecidableEq, Repr

/-- A family with what it needs at the two ends. -/
inductive Boundary (α : Type) where
  | full (first last : α)
  | natural
  | periodic
  | monotonic

namespace Family

/-- The name of a family. -/
def name : Family → String
  | .full => "full"
  | .natural => "natural"
  | .periodic => "periodic"
  | .monotonic => "monotonic"

/-- The family of a name, in upper or lower case. -/
def ofName? (s : String) : Option Family :=
  match String.ofList (s.toList.map Char.toLower) with
  | "full" => some .full
  | "natural" => some .natural
  | "periodic" => some .periodic
  | "monotonic" => some .monotonic
  | _ => none

/-- The family that a literal names. -/
def ofLiteral? : Literal → Option Family
  | .text s => ofName? s
  | _ => none

/-- The text that shows a family as a value rather than by its name. -/
def shown (f : Family) : String :=
  "<SplineType." ++ f.name.toUpper ++ ": '" ++ f.name ++ "'>"

/-- Names are read back. -/
theorem ofName?_name (f : Family) : ofName? f.name = some f := by
  cases f <;> decide +kernel

end Family

namespace Boundary

variable {α : Type}

/-- The family of a boundary. -/
def family : Boundary α → Family
  | .full _ _ => .full
  | .natural => .natural
  | .periodic => .periodic
  | .monotonic => .monotonic

/-- Why no boundary could be made of the given options. -/
inductive Mismatch where
  /-- The literal names no family. -/
  | unknown (given : Literal)
  /-- The slopes that were given do not fit the family. -/
  | slopes (family : Family) (reason : SlopeMismatch)

/-- The boundary of a family, given the slopes that the caller named. -/
def ofFamily (f : Family) (first last : Option α) :
    Except Mismatch (Boundary α) :=
  match f, first, last with
  | .full, some m₀, some m₁ => .ok (.full m₀ m₁)
  | .full, _, _ => .error (.slopes .full .needsBoth)
  | .natural, none, none => .ok .natural
  | .periodic, none, none => .ok .periodic
  | .monotonic, none, none => .ok .monotonic
  | f, _, _ => .error (.slopes f .onlyForFull)

/-- The boundary that a literal asks for.  Without one the family is full if
    a slope is given and natural otherwise. -/
def ofLiteral (given : Literal) (first last : Option α) :
    Except Mismatch (Boundary α) :=
  match given with
  | .null =>
      ofFamily (if first.isSome || last.isSome then .full else .natural)
        first last
  | given =>
      match Family.ofLiteral? given with
      | none => .error (.unknown given)
      | some f => ofFamily f first last

end Boundary

end PiecewiseCubic
