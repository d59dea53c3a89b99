import PiecewiseCubic.Text.Surrogate

/-! # Places in a document

    A cursor stands before a character of a document and knows its line and
    column, which decide about the structure.  All readers of a document move
    a cursor on; the end of the document is no character. -/

namespace PiecewiseCubic.Document

/-- Why a document cannot be read. -/
inductive Malformed where
  /-- A character that no document may have. -/
  | unprintable
  /-- Something stands where no document may have it. -/
  | badToken
  /-- The parts of the document do not fit together. -/
  | badStructure
  /-- A name is unknown or used twice, or there is a second document. -/
  | badReference
  /-- A part cannot be of the kind that is asked for. -/
  | badValue
  /-- A number or a moment is spelt like one, but is none. -/
  | invalidSpelling
  /-- A number has no digits at all. -/
  | emptySpelling
  /-- A truth value is spelt like none. -/
  | unknownWord
  /-- A moment is not even spelt like one. -/
  | noMoment
  /-- A character has a number beyond all numbers of characters. -/
  | tooLarge
  /-- Too many lists and records stand within each other. -/
  | tooDeep
  deriving DecidableEq, Repr

/-- Whether a character ends a line. -/
def isBreak (c : Char) : Bool :=
  c == '\n' || c == '\x85' || c == '\u2028' || c == '\u2029'

/-- Whether a character separates the words of a line. -/
def isSpace (c : Char) : Bool := c == ' ' || c == '\t'

/-- The mark of byte order, which takes no column. -/
def byteOrderMark : Char := '\ufeff'

/-- A place in a document. -/
structure Cursor where
  /-- The characters behind the place. -/
  rest : List Char
  /-- How many characters are before it. -/
  index : Nat
  line : Nat
  column : Nat
  deriving Repr

namespace Cursor

/-- The beginning of a document. -/
def start (text : List Char) : Cursor := ⟨text, 0, 0, 0⟩

/-- The character behind a place. -/
def peek (c : Cursor) : Option Char := c.rest.head?

/-- The character so many places on. -/
def peekAt (c : Cursor) (n : Nat) : Option Char := c.rest[n]?

/-- The place behind the next character. -/
def next (c : Cursor) : Cursor :=
  match c.rest with
  | [] => c
  | ch :: rest =>
      if isBreak ch then ⟨rest, c.index + 1, c.line + 1, 0⟩
      else
        ⟨rest, c.index + 1, c.line,
          if ch = byteOrderMark then c.column else c.column + 1⟩

/-- The place so many characters on. -/
def forward : Nat → Cursor → Cursor
  | 0, c => c
  | n + 1, c => forward n c.next

/-- The characters from a place on that `p` accepts, and the place behind
    them. -/
def span (p : Char → Bool) (c : Cursor) : List Char × Cursor :=
  let s := c.rest.takeWhile p
  (s, c.forward s.length)

/-- The place behind the characters that `p` accepts. -/
def skip (p : Char → Bool) (c : Cursor) : Cursor := (c.span p).2

/-- The line end behind a place, and the place behind it.  The ends of a page
    or paragraph stay what they are. -/
def lineBreak? (c : Cursor) : Option (Char × Cursor) :=
  match c.peek with
  | some ch =>
      if isBreak ch then some (if ch = '\x85' then '\n' else ch, c.next)
      else none
  | none => none

/-- Whether a character, if there is one, ends a line. -/
def endsLine : Option Char → Bool
  | none => true
  | some c => isBreak c

/-- Whether a character, if there is one, ends a word on a line without
    tabs. -/
def endsWord : Option Char → Bool
  | none => true
  | some c => c == ' ' || isBreak c

/-- Whether a character, if there is one, ends a mark. -/
def endsMark : Option Char → Bool
  | none => true
  | some c => isSpace c || isBreak c

/-- Whether three like characters stand alone behind a place. -/
def isTriple (ch : Char) (c : Cursor) : Bool :=
  c.rest.take 3 == [ch, ch, ch] && endsMark (c.peekAt 3)

/-- Whether a mark that divides documents is behind a place. -/
def isDivider (c : Cursor) : Bool := c.isTriple '-' || c.isTriple '.'

/-- The place behind a comment, if there is one. -/
def skipComment (c : Cursor) : Cursor :=
  if c.peek = some '#' then c.skip fun ch => !isBreak ch else c

/-- The place behind the rest of a line that may hold blanks and a comment
    only, and behind its end. -/
def restOfLine (c : Cursor) : Except Malformed Cursor :=
  let c := (c.skip (· == ' ')).skipComment
  if endsLine c.peek then .ok c.next else .error .badToken

end Cursor

end PiecewiseCubic.Document
