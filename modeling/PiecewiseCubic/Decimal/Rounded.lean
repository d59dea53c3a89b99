import PiecewiseCubic.Decimal.Basic

/-! # Rounded text — so many significant digits

    A number is rounded once, from its exact value, to a given count of
    significant digits; trailing zeros are dropped.  The exponent form begins
    below `10 ^ -4` and where the count of digits ends. -/

namespace PiecewiseCubic.Decimal

/-- The layout of a number with `places` significant digits. -/
def roundedLayout (places : Nat) : Layout where
  positionalFrom := -4
  positionalBelow := places
  keepsPoint := false

/-- The positive quotient rounded to `places` significant digits. -/
def significant (places num den : Nat) : Decimal :=
  let unit := leadingExponent num den - places + 1
  let (n, d) := scaled num den unit
  stripZeros ⟨roundDiv n d, unit⟩

/-- The text of a magnitude with `places` significant digits. -/
def rounded (places : Nat) : Magnitude → List Char
  | .undefined => ['n', 'a', 'n']
  | .infinite => ['i', 'n', 'f']
  | .finite 0 _ => ['0']
  | .finite (m + 1) e =>
      let (num, den) := fraction (m + 1) e
      render (roundedLayout places) (significant places num den)

end PiecewiseCubic.Decimal
