import PiecewiseCubic.Decimal.Double
import PiecewiseCubic.Scalar

/-! # Doubles — the scalars of a run

    Binary floating point with 53 significant bits.  Every operation is the
    correctly rounded one, or the one of the C mathematical library. -/

namespace PiecewiseCubic

/-- The magnitude of `a` with the sign bit of `b`, which a negative zero has
    as well. -/
def Double.copySign (a b : Float) : Float :=
  if b.toBits >>> 63 == 1 then -a.abs else a.abs

instance : Scalar Float where
  decLt := fun a b => inferInstanceAs (Decidable (a < b))
  decLe := fun a b => inferInstanceAs (Decidable (a ≤ b))
  ofNat := Float.ofNat
  ofScientific := Float.ofScientific
  abs := Float.abs
  sqrt := Float.sqrt
  cbrt := Float.cbrt
  cos := Float.cos
  acos := Float.acos
  pi := 3.141592653589793
  pow := fun x n => Float.pow x (Float.ofNat n)
  copySign := Double.copySign
  isFinite := Float.isFinite
  ofNumeral := Double.ofNumeral

end PiecewiseCubic
