import PiecewiseCubic.Text.Printable
import PiecewiseCubic.Text.Surrogate

/-! # Quoted text — a text as a value shows it

    A quoted text stands between single quotes, or between double quotes if
    it holds a single quote and no double one.  The quote, the backslash and
    every character that is not printable are escaped.  Bytes are shown as the
    characters of their numbers, behind a mark; those that are no ASCII
    characters are escaped. -/

namespace PiecewiseCubic.Text

/-- The lower-case hexadecimal digits of a number, filled up with zeros to
    the given width. -/
def hexadecimal (width n : Nat) : List Char :=
  let ds := Nat.toDigits 16 n
  List.replicate (width - ds.length) '0' ++ ds

/-- What is written for one character between two quotes. -/
def escape (quote c : Char) : List Char :=
  let n := (half? c).getD c.toNat
  if c = quote ∨ c = '\\' then ['\\', c]
  else if c = '\n' then ['\\', 'n']
  else if c = '\r' then ['\\', 'r']
  else if c = '\t' then ['\\', 't']
  else if isPrintable c then [c]
  else if n < 0x100 then '\\' :: 'x' :: hexadecimal 2 n
  else if n < 0x10000 then '\\' :: 'u' :: hexadecimal 4 n
  else '\\' :: 'U' :: hexadecimal 8 n

/-- The quote that needs the fewer escapes, the single one if in doubt. -/
def quoteOf (cs : List Char) : Char :=
  if cs.contains '\'' && !cs.contains '"' then '"' else '\''

/-- The text between quotes. -/
def quoted (s : String) : String :=
  let q := quoteOf s.toList
  String.ofList (q :: s.toList.flatMap (escape q) ++ [q])

/-- What is written for one byte between two quotes. -/
def escapeByte (quote : Char) (b : UInt8) : List Char :=
  if b < 0x80 then escape quote (Char.ofNat b.toNat)
  else '\\' :: 'x' :: hexadecimal 2 b.toNat

/-- Bytes between quotes. -/
def quotedBytes (bs : List UInt8) : String :=
  let q := quoteOf (bs.map fun b => Char.ofNat b.toNat)
  String.ofList ('b' :: q :: bs.flatMap (escapeByte q) ++ [q])

end PiecewiseCubic.Text
