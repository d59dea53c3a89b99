import PiecewiseCubic.Curve.Moments
import PiecewiseCubic.Decimal.Double
import PiecewiseCubic.Text.Blank

/-! # Tables of points — a text file with two columns

    A line holds numbers with blanks of any kind between them; a number sign
    begins a comment.  Lines without numbers are skipped and all others have the same
    count of columns, of which the first two are read. -/

namespace PiecewiseCubic.PointTable

open Text

/-- Why a table cannot be read. -/
inductive Fault where
  /-- A field is no number, or the lines have different counts of fields. -/
  | unreadable
  /-- There are not two columns in the file. -/
  | fewColumns (file : String)
  deriving DecidableEq, Repr

/-- What is said about a table that cannot be read. -/
def Fault.message? : Fault → Option String
  | .unreadable => none
  | .fewColumns file => some ("File " ++ file ++ " must have two columns x y")

/-- The fields of a line without its comment. -/
def fields (line : List Char) : List (List Char) :=
  words (line.takeWhile (· != '#'))

/-- The number that fills a field. -/
def number (field : List Char) : Except Fault Float :=
  match Numeral.numeral? field with
  | some n => .ok (Double.ofNumeral n)
  | none => .error .unreadable

/-- The lines of a text that have fields. -/
def rows (text : String) : List (List (List Char)) :=
  ((splitWhere isLineEnd text.toList).map fields).filter
    fun row => !row.isEmpty

/-- The first two numbers of a row. -/
def point? : List Float → Option (Point Float)
  | x :: y :: _ => some ⟨x, y⟩
  | _ => none

/-- The points in the text of a file. -/
def read (file text : String) : Except Fault (List (Point Float)) :=
  match (rows text).mapM fun row => row.mapM number with
  | .error fault => .error fault
  | .ok [] => .error (.fewColumns file)
  | .ok (row :: rest) =>
      if rest.all fun r => r.length == row.length then
        match (row :: rest).mapM point? with
        | some points => .ok points
        | none => .error (.fewColumns file)
      else .error .unreadable

end PiecewiseCubic.PointTable
