import PiecewiseCubic.Document.Quoted

/-! # Plain scalars of a document

    A plain scalar has no quotes.  It ends at a colon before a blank, at a
    comment behind a blank, at a tab, and within brackets at the marks that
    divide them; it goes on over line ends as long as the lines are indented
    further than the collection around it. -/

namespace PiecewiseCubic.Document

/-- The marks that divide collections in brackets. -/
def isFlowMark (c : Char) : Bool :=
  c == ',' || c == '[' || c == ']' || c == '\x7b' || c == '\x7d'

/-- Whether a word of a plain scalar ends before `c`, with `cs` behind it. -/
def endsPlain (flow : Bool) (c : Char) (cs : List Char) : Bool :=
  isSpace c || isBreak c
    || (c == ':' && (Cursor.endsMark cs.head?
      || (flow && cs.head?.any isFlowMark)))
    || (flow && (isFlowMark c || c == '?'))

/-- The word of a plain scalar at the beginning of a text. -/
def plainWord (flow : Bool) : List Char → List Char
  | [] => []
  | c :: cs => if endsPlain flow c cs then [] else c :: plainWord flow cs

/-- What lies between two words of a plain scalar. -/
structure PlainGap where
  /-- What the blanks or line ends stand for; nothing if the scalar ends. -/
  text : List Char
  /-- The place behind them. -/
  behind : Cursor
  /-- Whether there was a line end. -/
  broken : Bool

/-- The line ends behind a place at the beginning of a line, blanks being
    dropped; nothing, and only the place, if a document ends there. -/
def plainBreaks : Nat → Cursor → Option (List Char) × Cursor
  | 0, c => (some [], c)
  | fuel + 1, c =>
      if c.isDivider then (none, c)
      else
        let c := c.skip (· == ' ')
        match c.lineBreak? with
        | none => (some [], c)
        | some (br, c) =>
            let (further, c) := plainBreaks fuel c
            (further.map (br :: ·), c)

/-- What lies behind a word of a plain scalar. -/
def plainGap (c : Cursor) : PlainGap :=
  let (blanks, c) := c.span (· == ' ')
  match c.lineBreak? with
  | none => ⟨blanks, c, false⟩
  | some (br, c) =>
      match plainBreaks (c.rest.length + 1) c with
      | (some further, c) => ⟨foldedBreaks br further, c, true⟩
      | (none, c) => ⟨[], c, true⟩

/-- A plain scalar, the place behind it, and whether that is on a line that
    the scalar has no part of. -/
structure PlainText where
  text : List Char
  behind : Cursor
  broken : Bool

/-- The plain scalar behind a place.  Its lines must have `floor` columns of
    indentation, unless it is within brackets. -/
def plainTextWith (flow : Bool) (floor : Nat) : Nat → Cursor → PlainText
  | 0, c => ⟨[], c, false⟩
  | fuel + 1, c =>
      let word := plainWord flow c.rest
      let gap := plainGap (c.forward word.length)
      let ends := gap.text.isEmpty || gap.behind.peek == some '#'
        || (!flow && gap.behind.column < floor)
        || (plainWord flow gap.behind.rest).isEmpty
      if ends then ⟨word, gap.behind, gap.broken⟩
      else
        let rest := plainTextWith flow floor fuel gap.behind
        { rest with text := word ++ gap.text ++ rest.text }

/-- The plain scalar behind a place. -/
def plainText (flow : Bool) (floor : Nat) (c : Cursor) : PlainText :=
  plainTextWith flow floor (c.rest.length + 1) c

/-- Whether a plain scalar may begin with these characters. -/
def startsPlain (flow : Bool) : List Char → Bool
  | [] => false
  | c :: cs =>
      if c == '-' || c == '?' || c == ':' then
        !Cursor.endsMark cs.head? && (c == '-' || !flow)
      else
        !isSpace c && !isBreak c
          && !(",[]\x7b\x7d#&*!|>'\"%@\x60".toList.contains c)

end PiecewiseCubic.Document
