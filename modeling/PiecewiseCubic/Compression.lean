import PiecewiseCubic.Path

/-! # Compressed files — what a text stands for in place of one

    A file whose name has the ending of a compressed format is unpacked before
    it is read, and a file may be asked for without that ending.  Files hold
    texts, and no text is the whole of a compressed file: it is refused at the
    first character that the format does not begin with, or ends too early. -/

namespace PiecewiseCubic

open Text

/-- A format of compressed files. -/
inductive Compression where
  | bzip2
  | gzip
  | lzma
  deriving DecidableEq, Repr

namespace Compression

/-- Why a text cannot be unpacked. -/
inductive Refusal where
  /-- It does not begin as its format does. -/
  | foreign (format : Compression)
  /-- It ends before its format does. -/
  | cutOff
  deriving DecidableEq, Repr

/-- The endings of names, in the order in which they are tried. -/
def endings : List (String × Compression) :=
  [(".bz2", .bzip2), (".gz", .gzip), (".xz", .lzma), (".lzma", .lzma)]

/-- The format that the name of a file tells. -/
def ofPath? (path : String) : Option Compression :=
  endings.lookup (Path.ending path)

/-- The names under which a file may be found, the first one first. -/
def names (path : String) : List String :=
  if (ofPath? path).isSome then [path]
  else path :: endings.map fun e => path ++ e.1

/-- Whether one of two texts is the beginning of the other one. -/
def agree (s t : List Char) : Bool := s.isPrefixOf t || t.isPrefixOf s

/-- The texts with which a bzip2 file begins: a mark, a size from one to nine,
    and the mark of a block. -/
def blockMarks : List (List Char) :=
  ['1', '2', '3', '4', '5', '6', '7', '8', '9'].map fun size =>
    ['B', 'Z', 'h', size, '1', 'A', 'Y', '&', 'S', 'Y']

/-- Whether a character tells how an LZMA file is packed: its number is made
    of three small numbers, of which two are four together at most. -/
def isPacking (c : Char) : Bool :=
  let n := c.toNat
  n < 225 && n % 9 + n / 9 % 5 ≤ 4

/-- How many characters at the beginning of an LZMA file tell how it is
    packed. -/
def packingLength : Nat := 5

/-- Whether a text is the beginning of a compressed file. -/
def begins : Compression → List Char → Bool
  | .bzip2, cs => blockMarks.any fun mark => agree mark cs
  | .gzip, cs => cs.isEmpty
  | .lzma, cs => cs.length < packingLength && cs.head?.all isPacking

/-- What a text is unpacked to.  Only a gzip file may be empty. -/
def unpack (format : Compression) (text : String) :
    Except Refusal String :=
  if format.begins text.toList then
    match format with
    | .gzip => .ok ""
    | _ => .error .cutOff
  else .error (.foreign format)

end Compression

end PiecewiseCubic
