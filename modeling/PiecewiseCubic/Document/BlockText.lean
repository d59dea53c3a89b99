import PiecewiseCubic.Document.Cursor

/-! # Indented texts of a document

    An indented text follows a line that announces it.  Its lines have their
    indentation taken off; a text that is to be folded has single line ends
    between lines without blanks in front replaced by blanks.  The header may
    say how far the text is indented and which line ends at its end stay. -/

namespace PiecewiseCubic.Document

/-- Which line ends at the end of an indented text stay. -/
inductive Ending where
  | none
  | one
  | all
  deriving DecidableEq, Repr

/-- What the header of an indented text says. -/
structure BlockHeader where
  ending : Ending := .one
  /-- The columns of indentation within the collection around the text. -/
  indent : Option Nat := none
  deriving Repr

/-- The ending that a sign asks for. -/
def endingOf? : Char → Option Ending
  | '+' => some .all
  | '-' => some .none
  | _ => none

/-- Reads the sign of an ending, if there is one. -/
def readEnding (h : BlockHeader) (c : Cursor) : BlockHeader × Cursor :=
  match c.peek.bind endingOf? with
  | some ending => ({ h with ending := ending }, c.next)
  | none => (h, c)

/-- Reads a digit of indentation, if there is one; it must not be zero. -/
def readIndent (h : BlockHeader) (c : Cursor) :
    Except Malformed (BlockHeader × Cursor) :=
  match c.peek with
  | some d =>
      if !d.isDigit then .ok (h, c)
      else if d = '0' then .error .badToken
      else .ok ({ h with indent := some (d.toNat - 48) }, c.next)
  | none => .ok (h, c)

/-- The header of an indented text, behind the mark that announces it: a sign
    and a digit in any order. -/
def blockHeader (c : Cursor) : Except Malformed (BlockHeader × Cursor) :=
  let (h, c₁) := readEnding {} c
  match readIndent h c₁ with
  | .error e => .error e
  | .ok (h, c₂) =>
      let (h, c₃) := if c₁.index = c.index then readEnding h c₂ else (h, c₂)
      if Cursor.endsWord c₃.peek then .ok (h, c₃) else .error .badToken

/-- The place behind the indentation of a line, of `indent` columns at
    most. -/
def skipIndent (indent : Nat) : Nat → Cursor → Cursor
  | 0, c => c
  | fuel + 1, c =>
      if c.column < indent ∧ c.peek = some ' ' then
        skipIndent indent fuel c.next
      else c

/-- The line ends of blank lines, and the place behind them and behind the
    indentation of the next line. -/
def blankLines (indent : Nat) : Nat → Cursor → List Char × Cursor
  | 0, c => ([], c)
  | fuel + 1, c =>
      let c := skipIndent indent c.rest.length c
      match c.lineBreak? with
      | none => ([], c)
      | some (br, c) =>
          let (brs, c) := blankLines indent fuel c
          (br :: brs, c)

/-- The line ends of blank lines before a text whose indentation is not known,
    the place where the text begins, and the widest indentation so far. -/
def leadingLines (widest : Nat) : Nat → Cursor → List Char × Cursor × Nat
  | 0, c => ([], c, widest)
  | fuel + 1, c =>
      let c := c.skip (· == ' ')
      let widest := Nat.max widest c.column
      match c.lineBreak? with
      | none => ([], c, widest)
      | some (br, c) =>
          let (brs, c, widest) := leadingLines widest fuel c
          (br :: brs, c, widest)

/-- Whether a line has more than its indentation in front. -/
def isIndented (c : Cursor) : Bool := c.peek.any fun ch => ch == ' ' || ch == '\t'

/-- Whether a line of the text is behind a place. -/
def isTextLine (indent : Nat) (c : Cursor) : Bool :=
  c.column == indent && !c.rest.isEmpty

/-- What stands between two lines of the text: the line end of the first one,
    and those of the blank lines behind it. -/
def betweenLines (folded indented : Bool) (br : Option Char)
    (blank : List Char) (next : Cursor) : List Char :=
  if folded && br == some '\n' && !indented && !isIndented next then
    if blank.isEmpty then [' '] else blank
  else br.toList ++ blank

/-- The lines of the text from a place on, and the place behind them. -/
def textLines (folded : Bool) (ending : Ending) (indent : Nat) :
    Nat → Cursor → List Char × Cursor
  | 0, c => ([], c)
  | fuel + 1, c =>
      let (line, behind) := c.span fun ch => !isBreak ch
      let (br, behind) :=
        match behind.lineBreak? with
        | some (br, behind) => (some br, behind)
        | none => (none, behind)
      let (blank, next) := blankLines indent (behind.rest.length + 1) behind
      if isTextLine indent next then
        let (rest, last) := textLines folded ending indent fuel next
        (line ++ betweenLines folded (isIndented c) br blank next ++ rest,
          last)
      else
        let tail :=
          match ending with
          | .none => []
          | .one => br.toList
          | .all => br.toList ++ blank
        (line ++ tail, next)

/-- The text announced by the mark behind a place, and the place behind the
    text.  Its lines are indented by `floor` columns at least. -/
def blockText (folded : Bool) (floor : Nat) (c : Cursor) :
    Except Malformed (List Char × Cursor) :=
  match blockHeader c.next with
  | .error e => .error e
  | .ok (h, c) =>
      match c.restOfLine with
      | .error e => .error e
      | .ok c =>
          let least := Nat.max floor 1
          let fuel := c.rest.length + 1
          let (blank, c, indent) :=
            match h.indent with
            | some n =>
                let indent := least + n - 1
                let (blank, c) := blankLines indent fuel c
                (blank, c, indent)
            | none =>
                let (blank, c, widest) := leadingLines 0 fuel c
                (blank, c, Nat.max least widest)
          if isTextLine indent c then
            let (text, c) := textLines folded h.ending indent fuel c
            .ok (blank ++ text, c)
          else .ok (if h.ending = .all then blank else [], c)

end PiecewiseCubic.Document
