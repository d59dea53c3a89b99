import PiecewiseCubic.Decimal.Basic
import PiecewiseCubic.Text.Blank

/-! # Numerals — reading decimal numbers

    A numeral is an optional sign before digits with at most one point and an
    optional power of ten, or before one of the words `nan`, `inf` and
    `infinity` in any case.  `numeral?` reads a whole text and accepts nothing
    around the numeral; `looseNumeral?` accepts blanks around it, single
    underscores between digits and the digits of every script. -/

namespace PiecewiseCubic

/-- A number as it is spelt. -/
inductive Numeral where
  | undefined
  | infinite (negative : Bool)
  | finite (negative : Bool) (value : Decimal)
  deriving DecidableEq, Repr

namespace Numeral

open Text

/-- The sign of a text, positive if it has none, and what follows. -/
def splitSign : List Char → Bool × List Char
  | '+' :: cs => (false, cs)
  | '-' :: cs => (true, cs)
  | cs => (false, cs)

/-- The digits at the start of a text, and what follows. -/
def splitDigits (cs : List Char) : List Nat × List Char :=
  ((cs.takeWhile Char.isDigit).map (fun c => c.toNat - 48),
    cs.dropWhile Char.isDigit)

/-- The power of ten after a mark `e`, which needs digits and ends the text;
    zero if nothing is left. -/
def exponent? : List Char → Option Int
  | [] => some 0
  | c :: cs =>
      if c = 'e' ∨ c = 'E' then
        let (negative, rest) := splitSign cs
        match splitDigits rest with
        | ([], _) => none
        | (ds, []) =>
            let n : Int := valueOfDigits ds
            some (if negative then -n else n)
        | (_, _ :: _) => none
      else none

/-- The digits of an unsigned numeral with a digit on one side of its point
    at least. -/
def unsigned? (cs : List Char) : Option Decimal :=
  let (whole, rest) := splitDigits cs
  let (frac, rest) :=
    match rest with
    | '.' :: rest => splitDigits rest
    | rest => ([], rest)
  if whole.isEmpty && frac.isEmpty then none
  else (exponent? rest).map fun e =>
    ⟨valueOfDigits (whole ++ frac), e - frac.length⟩

/-- Reads a numeral that fills the text. -/
def numeral? (cs : List Char) : Option Numeral :=
  let (negative, rest) := splitSign cs
  match String.ofList (rest.map Char.toLower) with
  | "nan" => some .undefined
  | "inf" => some (.infinite negative)
  | "infinity" => some (.infinite negative)
  | _ => (unsigned? rest).map (.finite negative)

/-- Drops underscores, each of which must stand between two digits; `after`
    tells whether a digit stands before the text. -/
def dropUnderscores (after : Bool) : List Char → Option (List Char)
  | [] => some []
  | '_' :: c :: cs =>
      if after && c.isDigit then
        (dropUnderscores true cs).map (c :: ·)
      else none
  | ['_'] => none
  | c :: cs => (dropUnderscores c.isDigit cs).map (c :: ·)

/-- The text without its outer blanks and without underscores, its digits
    written from zero to nine. -/
def tidy? (cs : List Char) : Option (List Char) :=
  dropUnderscores false ((trim cs).map toAsciiDigit)

/-- Reads a numeral with blanks around it, underscores and foreign digits. -/
def looseNumeral? (cs : List Char) : Option Numeral :=
  (tidy? cs).bind numeral?

/-- The most digits an integer may have. -/
def integerDigitLimit : Nat := 4300

/-- Reads a signed integer with blanks around it, underscores and foreign
    digits. -/
def looseInteger? (cs : List Char) : Option Int :=
  (tidy? cs).bind fun cs =>
    let (negative, rest) := splitSign cs
    match splitDigits rest with
    | (d :: ds, []) =>
        if integerDigitLimit < (d :: ds).length then none
        else
          let n : Int := valueOfDigits (d :: ds)
          some (if negative then -n else n)
    | _ => none

end Numeral

end PiecewiseCubic
