/-! # Blank characters — what surrounds and separates words

    The characters with the Unicode property White_Space, and the four
    separators U+001C to U+001F beside them.  The separators stand between
    words, but they are not taken off the ends of a numeral. -/

namespace PiecewiseCubic.Text

/-- Whether the character is blank. -/
def isBlank (c : Char) : Bool :=
  let n := c.toNat
  (9 ≤ n && n ≤ 13) || (28 ≤ n && n ≤ 32) || n == 0x85 || n == 0xa0
    || n == 0x1680 || (0x2000 ≤ n && n ≤ 0x200a) || n == 0x2028
    || n == 0x2029 || n == 0x202f || n == 0x205f || n == 0x3000

/-- Whether the character may stand around a numeral. -/
def isMargin (c : Char) : Bool :=
  isBlank c && !(28 ≤ c.toNat && c.toNat ≤ 31)

/-- Whether the character ends a line. -/
def isLineEnd (c : Char) : Bool := c == '\n' || c == '\r'

/-- The text without its margins. -/
def trim (cs : List Char) : List Char :=
  ((cs.dropWhile isMargin).reverse.dropWhile isMargin).reverse

/-- The parts of a text between the characters that `p` accepts; there is
    one part more than there are such characters. -/
def splitWhere (p : Char → Bool) : List Char → List (List Char)
  | [] => [[]]
  | c :: cs =>
      match splitWhere p cs with
      | [] => [[c]]
      | part :: parts =>
          if p c then [] :: part :: parts else (c :: part) :: parts

/-- The words of a text: its longest parts without a blank. -/
def words (cs : List Char) : List (List Char) :=
  (splitWhere isBlank cs).filter (fun part => !part.isEmpty)

/-- Splitting leaves at least one part. -/
theorem splitWhere_ne_nil (p : Char → Bool) (cs : List Char) :
    splitWhere p cs ≠ [] := by
  cases cs with
  | nil => simp [splitWhere]
  | cons c cs =>
      rw [splitWhere]
      split
      · simp
      · split <;> simp

end PiecewiseCubic.Text
