import PiecewiseCubic.Decimal.Rounded
import PiecewiseCubic.Decimal.Shortest
import PiecewiseCubic.Decimal.Reader

/-! # Text of doubles

    A double is a sign and a magnitude `m * 2 ^ e` kept in 64 bits.  Its text
    is the text of the magnitude behind a minus sign; undefined values show
    no sign.  A numeral denotes the double nearest to it. -/

namespace PiecewiseCubic.Double

/-- Whether the sign bit is set. -/
def isNegative (x : Float) : Bool := x.toBits >>> 63 == 1

/-- The magnitude kept in the bits below the sign. -/
def magnitudeOfBits (bits : Nat) : Magnitude :=
  let frac : Nat := bits % Nat.pow 2 52
  let expo : Nat := bits / Nat.pow 2 52 % Nat.pow 2 11
  if expo = 2047 then if frac = 0 then .infinite else .undefined
  else if expo = 0 then .finite frac (-1074)
  else .finite (Nat.pow 2 52 + frac) (expo - 1075)

/-- The magnitude of a double. -/
def magnitude (x : Float) : Magnitude := magnitudeOfBits x.toBits.toNat

/-- The text of the magnitude, behind a minus sign if the double has one. -/
def signed (text : Magnitude → List Char) (x : Float) : String :=
  let m := magnitude x
  String.ofList
    (if isNegative x && m != .undefined then '-' :: text m else text m)

/-- The double rounded to `places` significant digits. -/
def roundedText (places : Nat) (x : Float) : String :=
  signed (Decimal.rounded places) x

/-- The fewest digits that read back as the double. -/
def shortestText (x : Float) : String :=
  signed Decimal.shortestText x

/-- The exponents of the leading digit beyond which a decimal is infinite as
    a double, or zero. -/
def exponentRange : Int := 340

/-- The double nearest to a decimal. -/
def ofDecimal (d : Decimal) : Float :=
  let lead : Int := d.exponent + Text.digitCount d.coefficient
  if d.coefficient = 0 ∨ lead < -exponentRange then 0
  else if exponentRange < lead then 1 / 0
  else Float.ofScientific d.coefficient (d.exponent < 0) d.exponent.natAbs

/-- The double nearest to a numeral. -/
def ofNumeral : Numeral → Float
  | .undefined => 0 / 0
  | .infinite negative => if negative then -1 / 0 else 1 / 0
  | .finite negative d => if negative then -ofDecimal d else ofDecimal d

end PiecewiseCubic.Double
