import PiecewiseCubic.Document.Token

/-! # The tokens of a text

    Tokens are taken from a text one after the other.  Whether a scalar is a
    key shows only at the colon behind it, so a token that may begin a key
    waits until that is known: until the colon, until its line ends, or until
    the key would be too long.  Indentation is kept as the columns of the open
    collections, and for each open bracket there is one possible key. -/

namespace PiecewiseCubic.Document

/-- Where a key may have begun. -/
structure KeyStart where
  /-- The number of the token that begins it. -/
  number : Nat
  /-- Whether nothing but a key may stand there. -/
  required : Bool
  index : Nat
  line : Nat
  column : Nat
  deriving Repr

/-- The taking of tokens from a text. -/
structure Lexer where
  cursor : Cursor
  /-- The columns of the open collections that indentation shows, innermost
      first. -/
  columns : List Nat := []
  /-- The possible key within the innermost bracket. -/
  key? : Option KeyStart := none
  /-- The possible keys around the open brackets, innermost first. -/
  outerKeys : List (Option KeyStart) := []
  /-- Whether a key may begin behind the cursor. -/
  keyAllowed : Bool := true
  /-- The tokens that wait. -/
  waiting : List Token := []
  /-- How many tokens have been given away. -/
  given : Nat := 0
  finished : Bool := false

namespace Lexer

/-- Whether the cursor is within brackets. -/
def inFlow (l : Lexer) : Bool := !l.outerKeys.isEmpty

/-- The least column of what belongs to the innermost open collection that
    indentation shows, and is not one of its own entries. -/
def floor (l : Lexer) : Nat :=
  match l.columns with
  | [] => 0
  | column :: _ => column + 1

/-- Puts a token behind the others. -/
def push (l : Lexer) (t : Token) : Lexer :=
  { l with waiting := l.waiting ++ [t] }

/-- Puts a token in its place among those that wait. -/
def insertAt (t : Token) : Nat → List Token → List Token
  | 0, ts => t :: ts
  | _ + 1, [] => [t]
  | n + 1, u :: ts => u :: insertAt t n ts

/-- Puts a token before the one that begins a key. -/
def insertBefore (l : Lexer) (key : KeyStart) (t : Token) : Lexer :=
  { l with waiting := insertAt t (key.number - l.given) l.waiting }

/-- The longest distance between the beginning of a key and its colon. -/
def keyLimit : Nat := 1024

/-- A possible key, as long as it can still be one.  One that had to be a key
    must not be given up. -/
def keepKey (c : Cursor) :
    Option KeyStart → Except Malformed (Option KeyStart)
  | none => .ok none
  | some key =>
      if key.line = c.line ∧ c.index - key.index ≤ keyLimit then .ok (some key)
      else if key.required then .error .badToken
      else .ok none

/-- Gives up the keys that are no longer possible. -/
def dropStale (l : Lexer) : Except Malformed Lexer := do
  let key? ← keepKey l.cursor l.key?
  let outerKeys ← l.outerKeys.mapM (keepKey l.cursor)
  return { l with key?, outerKeys }

/-- Gives up the possible key within the innermost bracket. -/
def dropKey (l : Lexer) : Except Malformed Lexer :=
  if l.key?.any KeyStart.required then .error .badToken
  else .ok { l with key? := none }

/-- Remembers that a key may begin here. -/
def saveKey (l : Lexer) : Except Malformed Lexer :=
  if l.keyAllowed then do
    let l ← l.dropKey
    let c := l.cursor
    let required := !l.inFlow && l.floor == c.column + 1
    return { l with
      key? := some ⟨l.given + l.waiting.length, required, c.index, c.line,
        c.column⟩ }
  else .ok l

/-- Ends the open collections whose columns are behind the given one. -/
def unwindTo (floor : Nat) : List Nat → List Nat × List Token
  | [] => ([], [])
  | column :: columns =>
      if floor ≤ column then
        let (left, ends) := unwindTo floor columns
        (left, .blockEnd :: ends)
      else (column :: columns, [])

/-- Ends the open collections that have no part in what is at `floor` or
    behind; brackets do not mind indentation. -/
def unwind (l : Lexer) (floor : Nat) : Lexer :=
  if l.inFlow then l
  else
    let (columns, ends) := unwindTo floor l.columns
    { l with columns, waiting := l.waiting ++ ends }

/-- Begins a collection at a column, if it is further in than the open
    ones. -/
def indent? (l : Lexer) (column : Nat) : Option Lexer :=
  if l.floor ≤ column then some { l with columns := column :: l.columns }
  else none

/-- The place of the next token: blanks, comments and line ends are passed,
    and behind a line end that is not within brackets a key may begin. -/
def toNextToken : Nat → Lexer → Lexer
  | 0, l => l
  | fuel + 1, l =>
      let c := (l.cursor.skip (· == ' ')).skipComment
      match c.lineBreak? with
      | none => { l with cursor := c }
      | some (_, c) =>
          toNextToken fuel
            { l with cursor := c, keyAllowed := l.keyAllowed || !l.inFlow }

/-- Passes the mark of byte order at the beginning of a text. -/
def skipMark (l : Lexer) : Lexer :=
  if l.cursor.index = 0 ∧ l.cursor.peek = some byteOrderMark then
    { l with cursor := l.cursor.next }
  else l

/-- Takes the end of the text. -/
def takeEnd (l : Lexer) : Except Malformed Lexer := do
  let l ← (l.unwind 0).dropKey
  return { l.push .streamEnd with
    key? := none, outerKeys := [], keyAllowed := false, finished := true }

/-- Takes a line that begins with a percent sign. -/
def takeDirective (l : Lexer) : Except Malformed Lexer := do
  let l ← (l.unwind 0).dropKey
  let (t, c) ← directiveToken l.cursor
  return { l.push t with cursor := c, keyAllowed := false }

/-- Takes a mark that divides documents. -/
def takeDivider (t : Token) (l : Lexer) : Except Malformed Lexer := do
  let l ← (l.unwind 0).dropKey
  return { l.push t with cursor := l.cursor.forward 3, keyAllowed := false }

/-- Takes an opening bracket. -/
def takeOpening (t : Token) (l : Lexer) : Except Malformed Lexer := do
  let l ← l.saveKey
  return { l.push t with
    cursor := l.cursor.next
    key? := none
    outerKeys := l.key? :: l.outerKeys
    keyAllowed := true }

/-- Takes a closing bracket. -/
def takeClosing (t : Token) (l : Lexer) : Except Malformed Lexer := do
  let l ← l.dropKey
  return { l.push t with
    cursor := l.cursor.next
    key? := l.outerKeys.head?.join
    outerKeys := l.outerKeys.tail
    keyAllowed := false }

/-- Takes a comma. -/
def takeComma (l : Lexer) : Except Malformed Lexer := do
  let l ← l.dropKey
  return { l.push .comma with cursor := l.cursor.next, keyAllowed := true }

/-- Begins a collection that indentation shows here, if it is further in than
    the open ones.  Its first mark must be where a key may begin. -/
def beginBlock (t : Token) (l : Lexer) : Except Malformed Lexer :=
  if l.inFlow then .ok l
  else if !l.keyAllowed then .error .badToken
  else
    match l.indent? l.cursor.column with
    | some l => .ok (l.push t)
    | none => .ok l

/-- Takes a dash. -/
def takeDash (l : Lexer) : Except Malformed Lexer := do
  let l ← l.beginBlock .blockList
  let l ← l.dropKey
  return { l.push .dash with cursor := l.cursor.next, keyAllowed := true }

/-- Takes a question mark before a key. -/
def takeKey (l : Lexer) : Except Malformed Lexer := do
  let l ← l.beginBlock .blockRecord
  let l ← l.dropKey
  return { l.push .key with
    cursor := l.cursor.next, keyAllowed := !l.inFlow }

/-- Takes a colon: behind a possible key, which is one now, or behind a
    question mark and its key. -/
def takeColon (l : Lexer) : Except Malformed Lexer :=
  match l.key? with
  | some key =>
      let l := { l with key? := none }.insertBefore key .key
      let l :=
        if l.inFlow then l
        else
          match l.indent? key.column with
          | some l => l.insertBefore key .blockRecord
          | none => l
      .ok { l.push .colon with cursor := l.cursor.next, keyAllowed := false }
  | none => do
      let l ← l.beginBlock .blockRecord
      let l ← l.dropKey
      return { l.push .colon with
        cursor := l.cursor.next, keyAllowed := !l.inFlow }

/-- Takes a token that may begin a key and has a reader of its own. -/
def takeProperty (read : Cursor → Except Malformed (Token × Cursor))
    (l : Lexer) : Except Malformed Lexer := do
  let l ← l.saveKey
  let (t, c) ← read l.cursor
  return { l.push t with cursor := c, keyAllowed := false }

/-- Takes an indented text. -/
def takeBlockText (folded : Bool) (l : Lexer) : Except Malformed Lexer := do
  let l ← l.dropKey
  let (s, c) ← blockText folded l.floor l.cursor
  return { l.push (.scalar (String.ofList s) false) with
    cursor := c, keyAllowed := true }

/-- Takes a plain scalar, behind which a key may begin if it ends before a
    line that it has no part of. -/
def takePlain (l : Lexer) : Except Malformed Lexer := do
  let l ← l.saveKey
  let s := plainText l.inFlow l.floor l.cursor
  return { l.push (.scalar (String.ofList s.text) true) with
    cursor := s.behind, keyAllowed := s.broken }

/-- Reads a name behind a mark. -/
def named (make : String → Token) (c : Cursor) :
    Except Malformed (Token × Cursor) :=
  (anchorName c).map fun (name, c) => (make name, c)

/-- Reads a scalar in quotes. -/
def quoted (read : Cursor → Except Malformed (List Char × Cursor))
    (c : Cursor) : Except Malformed (Token × Cursor) :=
  (read c).map fun (s, c) => (.scalar (String.ofList s) false, c)

/-- Takes the token that begins with a character behind the cursor. -/
def takeToken (l : Lexer) (ch : Char) : Except Malformed Lexer :=
  let c := l.cursor
  let marks := Cursor.endsMark (c.peekAt 1)
  let first := c.column == 0
  match ch with
  | '[' => l.takeOpening .openList
  | '\x7b' => l.takeOpening .openRecord
  | ']' => l.takeClosing .closeList
  | '\x7d' => l.takeClosing .closeRecord
  | ',' => l.takeComma
  | '*' => l.takeProperty (named .alias)
  | '&' => l.takeProperty (named .anchor)
  | '!' => l.takeProperty tagToken
  | '\'' => l.takeProperty (quoted singleQuoted)
  | '"' => l.takeProperty (quoted doubleQuoted)
  | _ =>
      if first && ch == '%' then l.takeDirective
      else if first && c.isTriple '-' then l.takeDivider .documentStart
      else if first && c.isTriple '.' then l.takeDivider .documentEnd
      else if ch == '-' && marks then l.takeDash
      else if ch == '?' && (l.inFlow || marks) then l.takeKey
      else if ch == ':' && (l.inFlow || marks) then l.takeColon
      else if ch == '|' && !l.inFlow then l.takeBlockText false
      else if ch == '>' && !l.inFlow then l.takeBlockText true
      else if startsPlain l.inFlow c.rest then l.takePlain
      else .error .badToken

/-- Takes the next token from the text, with those that its indentation
    brings. -/
def take (l : Lexer) : Except Malformed Lexer := do
  let l := l.skipMark
  let l ← (toNextToken (l.cursor.rest.length + 1) l).dropStale
  let l := l.unwind (l.cursor.column + 1)
  match l.cursor.peek with
  | none => l.takeEnd
  | some ch => l.takeToken ch

/-- Whether the first token that waits may turn out to begin a key. -/
def isUndecided (l : Lexer) : Bool :=
  (l.key? :: l.outerKeys).any fun key? =>
    key?.any fun key => key.number == l.given

/-- The tokens that can be given away, and why there are no more of them if
    the text ends badly.  Each round takes a token or gives one away. -/
def runWith : Nat → Lexer → List Token × Option Malformed
  | 0, _ => ([], some .badToken)
  | fuel + 1, l =>
      match l.waiting with
      | [] =>
          if l.finished then ([], none)
          else
            match l.take with
            | .error e => ([], some e)
            | .ok l => runWith fuel l
      | t :: waiting =>
          if l.finished then
            let (ts, e) := runWith fuel
              { l with waiting, given := l.given + 1 }
            (t :: ts, e)
          else
            match l.dropStale with
            | .error e => ([], some e)
            | .ok l =>
                if l.isUndecided then
                  match l.take with
                  | .error e => ([], some e)
                  | .ok l => runWith fuel l
                else
                  let (ts, e) := runWith fuel
                    { l with waiting, given := l.given + 1 }
                  (t :: ts, e)

end Lexer

/-- The tokens of a text, up to the fault that it ends with if it does.  A
    character makes five tokens at most: the beginning and end of a
    collection, the mark of a key, a colon and one more. -/
def tokensOf (text : List Char) : List Token × Option Malformed :=
  Lexer.runWith (8 * text.length + 16) { cursor := .start text }

end PiecewiseCubic.Document
