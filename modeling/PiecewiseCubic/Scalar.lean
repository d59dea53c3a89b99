import PiecewiseCubic.Decimal.Reader

/-! # Scalars — the arithmetic that every curve algorithm is written in

    Each algorithm of this library is stated once, over any type with the
    operations below, and keeps one fixed order of operations.  Read over the
    doubles it runs, read over the reals it is reasoned about.  Comparisons
    are decided by the scalar type itself, so an unordered value (a double
    that is not a number) takes the branch of a failed comparison. -/

namespace PiecewiseCubic

/-- Arithmetic, comparisons and the few elementary functions that curves
    need. -/
class Scalar (α : Type) extends
    Add α, Sub α, Mul α, Div α, Neg α, LT α, LE α, BEq α where
  /-- Strict comparison is decided. -/
  decLt : ∀ a b : α, Decidable (a < b)
  /-- Weak comparison is decided. -/
  decLe : ∀ a b : α, Decidable (a ≤ b)
  /-- The scalar of a natural number. -/
  ofNat : Nat → α
  /-- The scalar `m * 10 ^ e`, or `m / 10 ^ e` if the flag is set. -/
  ofScientific : Nat → Bool → Nat → α
  /-- Magnitude. -/
  abs : α → α
  /-- Square root. -/
  sqrt : α → α
  /-- Real cube root, odd in its argument. -/
  cbrt : α → α
  /-- Cosine. -/
  cos : α → α
  /-- Arc cosine, between zero and `pi`. -/
  acos : α → α
  /-- Half of the circumference of the unit circle. -/
  pi : α
  /-- A power with a natural exponent. -/
  pow : α → Nat → α
  /-- The magnitude of the first argument with the sign of the second. -/
  copySign : α → α → α
  /-- Whether the scalar is neither infinite nor undefined. -/
  isFinite : α → Bool
  /-- The scalar that a numeral spells. -/
  ofNumeral : Numeral → α

namespace Scalar

-- A type with operations of its own keeps them.
attribute [instance (low)] toAdd toSub toMul toDiv toNeg toLT toLE toBEq

variable {α : Type} [Scalar α]

instance (priority := low) instDecidableLt (a b : α) : Decidable (a < b) := Scalar.decLt a b

instance (priority := low) instDecidableLe (a b : α) : Decidable (a ≤ b) := Scalar.decLe a b

/-- Numerals denote scalars. -/
scoped instance (priority := low) instNumeral (n : Nat) : OfNat α n :=
  ⟨Scalar.ofNat n⟩

/-- Decimal fractions denote scalars. -/
scoped instance (priority := low) instDecimal : OfScientific α :=
  ⟨Scalar.ofScientific⟩

/-- What stands for an entry that was left out. -/
def missing : α := ofNumeral .undefined

/-- The larger of two scalars, the first one unless the second exceeds it. -/
def max (a b : α) : α := if a < b then b else a

/-- The smaller of two scalars, the first one unless the second is below it. -/
def min (a b : α) : α := if b < a then b else a

/-- Moves a scalar into the range from `lo` to `hi`, testing `lo` first. -/
def clamp (x lo hi : α) : α := Scalar.min (Scalar.max x lo) hi

/-- Whether the scalar differs from itself, as only undefined values do. -/
def isUndefined (x : α) : Bool := !(x == x)

/-- Whether `a` comes before `b` or is equal to it; undefined numbers come
    behind all others. -/
def notBehind (a b : α) : Bool :=
  !(decide (b < a) || (isUndefined a && !isUndefined b))

/-- Whether `r` is within a relative distance of `1e-12` and an absolute one
    of `1e-14` of `s`; infinities are close to themselves only. -/
def isClose (r s : α) : Bool :=
  (isFinite s && decide (abs (r - s) ≤ 1e-14 + 1e-12 * abs s)) || r == s

/-- Puts `x` into an ascending list, behind the last entry it is not below. -/
def insertAscending (x : α) : List α → List α
  | [] => [x]
  | e :: es =>
      if (e :: es).all (fun z => decide (x < z)) then x :: e :: es
      else e :: insertAscending x es

/-- Insertion adds one entry and loses none. -/
theorem insertAscending_perm (x : α) (es : List α) :
    (insertAscending x es).Perm (x :: es) := by
  induction es with
  | nil => exact List.Perm.refl _
  | cons e es ih =>
      rw [insertAscending]
      split
      · exact List.Perm.refl _
      · exact (ih.cons e).trans (List.Perm.swap x e es)

/-- Sorts a list by repeated insertion, first entries first. -/
def sortAscending (xs : List α) : List α :=
  xs.foldl (fun sorted x => insertAscending x sorted) []

/-- The entries of a list that differ from the entry kept before them. -/
def distinctAfter (last : α) : List α → List α
  | [] => []
  | x :: xs =>
      if x == last then distinctAfter last xs else x :: distinctAfter x xs

/-- Drops each entry that equals the entry kept before it. -/
def distinct : List α → List α
  | [] => []
  | x :: xs => x :: distinctAfter x xs

end Scalar

end PiecewiseCubic
