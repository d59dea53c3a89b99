import PiecewiseCubic.Text.Digit

/-! # Decimals — digits, a power of ten and their layout

    A decimal is a row of digits before a power of ten.  Laying one out is
    the same work for every number format of this library: positional if the
    exponent of the leading digit lies in the format's range, otherwise with
    one digit before the point and an explicit exponent. -/

namespace PiecewiseCubic

/-- The number `coefficient * 10 ^ exponent`. -/
structure Decimal where
  coefficient : Nat
  exponent : Int
  deriving DecidableEq, Repr

/-- What a number format decides about the layout of a decimal. -/
structure Layout where
  /-- The least exponent of the leading digit that is written positionally. -/
  positionalFrom : Int
  /-- The least exponent above those that are written positionally. -/
  positionalBelow : Int
  /-- Whether a whole number keeps a point and one zero. -/
  keepsPoint : Bool
  deriving Repr

/-- A number without its sign, as the formats of this library see it. -/
inductive Magnitude where
  | undefined
  | infinite
  /-- The number `m * 2 ^ e`. -/
  | finite (m : Nat) (e : Int)
  deriving DecidableEq, Repr

namespace Decimal

open Text

/-- The quotient rounded to nearest, a half going to the even neighbour. -/
def roundDiv (num den : Nat) : Nat :=
  let q := num / den
  let r := num % den
  if 2 * r < den then q
  else if den < 2 * r then q + 1
  else if q % 2 = 0 then q else q + 1

/-- The numerator and denominator of `m * 2 ^ e`. -/
def fraction (m : Nat) (e : Int) : Nat × Nat :=
  if 0 ≤ e then (m * Nat.pow 2 e.toNat, 1)
  else (m, Nat.pow 2 (-e).toNat)

/-- The exponent of the leading decimal digit of a positive quotient. -/
def leadingExponent (num den : Nat) : Int :=
  if den ≤ num then (digitCount (num / den) : Int) - 1
  else -(digitCount ((den - 1) / num) : Int)

/-- The quotient in units of `10 ^ e`, as numerator and denominator. -/
def scaled (num den : Nat) (e : Int) : Nat × Nat :=
  if 0 ≤ e then (num, den * Nat.pow 10 e.toNat)
  else (num * Nat.pow 10 (-e).toNat, den)

/-- Moves trailing zeros of the coefficient into the exponent, `fuel` at
    most. -/
def stripZerosWith : Nat → Decimal → Decimal
  | 0, d => d
  | fuel + 1, d =>
      if d.coefficient ≠ 0 ∧ d.coefficient % 10 = 0 then
        stripZerosWith fuel ⟨d.coefficient / 10, d.exponent + 1⟩
      else d

/-- The same number with no trailing zero in its coefficient. -/
def stripZeros (d : Decimal) : Decimal :=
  stripZerosWith (digitCount d.coefficient) d

/-- The sign and at least two digits of an exponent. -/
def exponentText (e : Int) : List Char :=
  let ds := digitsOf e.natAbs
  (if e < 0 then '-' else '+') ::
    (List.replicate (2 - ds.length) '0' ++ ds)

/-- The point and the digits behind it, or what the layout leaves of them if
    there are none. -/
def pointed (layout : Layout) (behind : List Char) : List Char :=
  if behind.isEmpty then (if layout.keepsPoint then ['.', '0'] else [])
  else '.' :: behind

/-- Lays a decimal without trailing zeros out; zero has the exponent of its
    only digit. -/
def render (layout : Layout) (d : Decimal) : List Char :=
  let ds := digitsOf d.coefficient
  let lead : Int := d.exponent + ds.length - 1
  if layout.positionalFrom ≤ lead ∧ lead < layout.positionalBelow then
    if 0 ≤ d.exponent then
      ds ++ List.replicate d.exponent.toNat '0' ++ pointed layout []
    else if 0 ≤ lead then
      ds.take (lead.toNat + 1) ++ pointed layout (ds.drop (lead.toNat + 1))
    else
      '0' :: pointed layout (List.replicate ((-lead).toNat - 1) '0' ++ ds)
  else
    ds.take 1 ++ (if ds.length ≤ 1 then [] else '.' :: ds.drop 1)
      ++ 'e' :: exponentText lead

end Decimal

end PiecewiseCubic
