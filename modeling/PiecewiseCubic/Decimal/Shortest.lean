import PiecewiseCubic.Decimal.Basic

/-! # Shortest text — the fewest digits that read back

    The reals that round to a given double fill an interval around it, whose
    ends belong to it if the mantissa is even.  The shortest text has the
    fewest digits of any decimal in that interval, and among those it is the
    closest to the double. -/

namespace PiecewiseCubic.Decimal

/-- The layout of the shortest text: positional below `10 ^ 16`. -/
def shortestLayout : Layout where
  positionalFrom := -4
  positionalBelow := 16
  keepsPoint := true

/-- The reals that round to a double, as multiples of one unit fraction. -/
structure Interval where
  /-- The lower end. -/
  lower : Nat
  /-- The double itself. -/
  center : Nat
  /-- The upper end. -/
  upper : Nat
  /-- The denominator of the three numbers above. -/
  den : Nat
  /-- Whether the two ends belong to the interval. -/
  closed : Bool

/-- The interval around `m * 2 ^ e`.  Below a power of two the doubles lie
    twice as close, so the lower half of the interval is half as wide. -/
def intervalOf (m : Nat) (e : Int) : Interval :=
  let narrow := m = Nat.pow 2 52 ∧ -1074 < e
  let (unit, den) := fraction 1 (e - 2)
  { lower := unit * (if narrow then 4 * m - 1 else 4 * m - 2)
    center := unit * (4 * m)
    upper := unit * (4 * m + 2)
    den := den
    closed := m % 2 == 0 }

/-- Whether the decimal lies in the interval. -/
def Interval.contains (iv : Interval) (d : Decimal) : Bool :=
  let (num, den) :=
    if 0 ≤ d.exponent then (d.coefficient * Nat.pow 10 d.exponent.toNat, 1)
    else (d.coefficient, Nat.pow 10 (-d.exponent).toNat)
  let x := num * iv.den
  if iv.closed then iv.lower * den ≤ x && x ≤ iv.upper * den
  else iv.lower * den < x && x < iv.upper * den

/-- The point of the grid of multiples of `10 ^ e` that lies in the interval
    and is closest to its center, a half going to the even neighbour. -/
def Interval.onGrid (iv : Interval) (e : Int) : Option Decimal :=
  let (n, d) := scaled iv.center iv.den e
  let nearest := roundDiv n d
  let below := n / d
  let other := if nearest = below then below + 1 else below
  [(⟨nearest, e⟩ : Decimal), ⟨other, e⟩].find? iv.contains

/-- The shortest decimal that reads back as `m * 2 ^ e`. -/
def shortest (m : Nat) (e : Int) : Decimal :=
  let iv := intervalOf m e
  let lead := leadingExponent iv.center iv.den
  let found := (List.range 17).findSome? fun (k : Nat) => iv.onGrid (lead - k)
  stripZeros (found.getD
    (let (n, d) := scaled iv.center iv.den (lead - 16); ⟨n / d, lead - 16⟩))

/-- The shortest text of a magnitude that reads back. -/
def shortestText : Magnitude → List Char
  | .undefined => ['n', 'a', 'n']
  | .infinite => ['i', 'n', 'f']
  | .finite 0 _ => ['0', '.', '0']
  | .finite (m + 1) e => render shortestLayout (shortest (m + 1) e)

end PiecewiseCubic.Decimal
