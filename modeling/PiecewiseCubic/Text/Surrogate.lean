/-! # Halves of surrogate pairs

    A text may hold half of a surrogate pair, which is no character.  A half
    stands in a text as a character of the last private plane, at its own
    distance from the start of that plane. -/

namespace PiecewiseCubic.Text

/-- The first code point of the plane in which halves stand. -/
def halfPlane : Nat := 0x100000

/-- Whether a number is that of half of a surrogate pair. -/
def isHalf (n : Nat) : Bool := 0xd800 ≤ n && n < 0xe000

/-- The character that stands for a half. -/
def ofHalf (n : Nat) : Char := Char.ofNat (halfPlane + n)

/-- The half that a character stands for, if it is one of those. -/
def half? (c : Char) : Option Nat :=
  let n := c.toNat - halfPlane
  if isHalf n then some n else none

/-- The character of a code point or of a half; nothing beyond the last code
    point. -/
def ofCode? (n : Nat) : Option Char :=
  if isHalf n then some (ofHalf n)
  else if n ≤ 0x10ffff then some (Char.ofNat n)
  else none

end PiecewiseCubic.Text
