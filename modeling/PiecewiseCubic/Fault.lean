import PiecewiseCubic.Family
import PiecewiseCubic.Literal.Printer
import PiecewiseCubic.Polynomial.Roots

/-! # Faults — why a request was refused

    Every fault is named by its cause.  Those with a text of their own show
    it in `message?`; an empty text belongs to a condition that a caller is
    expected to have checked. -/

namespace PiecewiseCubic

/-- Why a request was refused. -/
inductive Fault (α : Type) where
  /-- There are not as many positions as values. -/
  | lengthMismatch
  /-- The family needs more sampling points. -/
  | tooFewPoints
  /-- A position is outside of the range and must not be. -/
  | outsideRange
  /-- The two ends of an interval are equal. -/
  | emptyInterval
  /-- There is no segment with this number. -/
  | noSuchSegment
  /-- The family and the boundary slopes do not go together. -/
  | boundary (mismatch : Boundary.Mismatch)
  /-- There is no derivative of this order. -/
  | unsupportedOrder (given : Literal)
  /-- The equations for the slopes have no unique solution. -/
  | singular
  /-- There is not exactly one crossing between two positions. -/
  | crossings (count : Nat) (first last : α)
  /-- The roots of a polynomial were not found. -/
  | roots (cause : RootFault)
  /-- There is no curve to ask. -/
  | noCurve
  /-- An argument is missing or of a kind without the operation. -/
  | wrongKind
  /-- Something that is no number stands in a calculation. -/
  | notNumeric
  /-- A table of numbers holds something else, or has uneven rows. -/
  | unreadable
  /-- A number that may be read only was assigned. -/
  | readOnly
  /-- An element that is not there was asked for. -/
  | noSuchElement
  /-- A part was asked for by a name that is not there. -/
  | noSuchKey
  /-- A matrix was to have no rows. -/
  | emptyMatrix
  /-- A matrix was to have more rows than can be counted. -/
  | hugeMatrix
  /-- A matrix was to have more rows than there is room for. -/
  | noRoom
  /-- The indices are beyond the order of the matrix. -/
  | outsideMatrix (i j : Literal) (order : Nat)
  /-- The indices are outside of the pattern of the matrix. -/
  | outsidePattern (i j : Literal)
  /-- A range was to be divided into no intervals. -/
  | noIntervals
  /-- A range was to be divided into more intervals than a number can tell. -/
  | tooManyIntervals

namespace Boundary.Mismatch

/-- What is said about a boundary that does not exist. -/
def message : Boundary.Mismatch → String
  | .unknown given => "Spline type " ++ given.shown ++ " not supported"
  | .slopes family .needsBoth =>
      "Spline type " ++ family.shown
        ++ " not supported: full splines need both boundary slopes"
  | .slopes family .onlyForFull =>
      "Spline type " ++ family.shown
        ++ " not supported: boundary slopes can only be given for full splines"

end Boundary.Mismatch

namespace Fault

/-- What is said about a count of crossings other than one. -/
def crossingsMessage (count : Nat) (first last : Float) : String :=
  (if count = 0 then "Spline has no intersection"
    else "Spline has more than one intersection")
    ++ " in [" ++ Double.shortestText first ++ ", "
    ++ Double.shortestText last ++ "] (expected 1, found " ++ toString count
    ++ ")"

/-- The text of a pair of indices. -/
def elementText (i j : Literal) : String :=
  "Element (" ++ i.plain ++ "," ++ j.plain ++ ")"

/-- The text of a fault, if it has one. -/
def message? : Fault Float → Option String
  | .lengthMismatch => some ""
  | .tooFewPoints => some ""
  | .outsideRange => some ""
  | .emptyInterval => some ""
  | .noSuchSegment => some ""
  | .boundary mismatch => some mismatch.message
  | .unsupportedOrder given =>
      some ("Derivative order " ++ given.plain ++ " is not supported")
  | .crossings count first last => some (crossingsMessage count first last)
  | .emptyMatrix => some ""
  | .outsideMatrix i j order =>
      some (elementText i j ++ " is outside of the " ++ toString order ++ "x"
        ++ toString order ++ " matrix")
  | .outsidePattern i j =>
      some (elementText i j ++ " is not part of a tridiagonal matrix")
  | .singular => none
  | .roots _ => none
  | .noCurve => none
  | .wrongKind => none
  | .notNumeric => none
  | .unreadable => none
  | .readOnly => none
  | .noSuchElement => none
  | .noSuchKey => none
  | .hugeMatrix => none
  | .noRoom => none
  | .noIntervals => none
  | .tooManyIntervals => none

end Fault

end PiecewiseCubic
