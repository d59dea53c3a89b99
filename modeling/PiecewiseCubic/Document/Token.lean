import PiecewiseCubic.Document.BlockText
import PiecewiseCubic.Document.Plain

/-! # Tokens of a document

    A document is a row of tokens: marks, names, tags and scalars.  The
    beginnings and ends of collections that only indentation shows are tokens
    too.  Here are the tokens and the readers of those with a text of their
    own. -/

namespace PiecewiseCubic.Document

/-- What a line with a percent sign in front says about the document behind
    it. -/
inductive Directive where
  | version (major minor : Nat)
  /-- The beginning of the tags with a handle. -/
  | handle (handle start : String)
  | other (name : String)
  deriving DecidableEq, Repr

/-- A tag as it is written: a handle, if it has one, and what follows. -/
structure TagText where
  handle : Option String
  suffix : String
  deriving DecidableEq, Repr

/-- A part of a document. -/
inductive Token where
  | directive (d : Directive)
  | documentStart
  | documentEnd
  | streamEnd
  /-- The beginning of a list whose items are indented alike. -/
  | blockList
  /-- The beginning of a record whose keys are indented alike. -/
  | blockRecord
  | blockEnd
  | openList
  | closeList
  | openRecord
  | closeRecord
  /-- The dash in front of an item. -/
  | dash
  | comma
  /-- What stands before a key. -/
  | key
  /-- The colon before a value. -/
  | colon
  | alias (name : String)
  | anchor (name : String)
  | tag (t : TagText)
  | scalar (text : String) (plain : Bool)
  deriving DecidableEq, Repr

/-- Whether a character may be part of a name. -/
def isNameChar (c : Char) : Bool := c.isAlphanum || c == '-' || c == '_'

/-- Whether a character, if there is one, may follow the name of an anchor. -/
def endsName (c : Option Char) : Bool :=
  Cursor.endsMark c || c.any fun ch => "?:,]\x7d%@\x60".toList.contains ch

/-- The name behind a mark, and the place behind it. -/
def anchorName (c : Cursor) : Except Malformed (String × Cursor) :=
  let (name, c) := c.next.span isNameChar
  if name.isEmpty || !endsName c.peek then .error .badToken
  else .ok (String.ofList name, c)

/-- Whether a character may be part of a tag. -/
def isTagChar (c : Char) : Bool :=
  c.isAlphanum || "-;/?:@&=+$,_.!~*'()[]".toList.contains c

/-- The bytes of escapes behind a place, each a percent sign and two digits,
    and the place behind them. -/
def tagBytes : Nat → Cursor → Except Malformed (List UInt8 × Cursor)
  | 0, c => .ok ([], c)
  | fuel + 1, c =>
      match c.rest with
      | '%' :: rest =>
          match (rest.take 2).mapM (digitIn? 16) with
          | some [a, b] =>
              (tagBytes fuel (c.forward 3)).map fun (bs, c) =>
                ((a * 16 + b).toUInt8 :: bs, c)
          | _ => .error .badToken
      | _ => .ok ([], c)

/-- The characters of a tag behind a place, and the place behind them. -/
def tagCharsWith : Nat → Cursor → Except Malformed (List Char × Cursor)
  | 0, c => .ok ([], c)
  | fuel + 1, c =>
      match c.peek with
      | some '%' =>
          match tagBytes (c.rest.length + 1) c with
          | .error e => .error e
          | .ok (bytes, c) =>
              match String.fromUTF8? (ByteArray.mk bytes.toArray) with
              | none => .error .badToken
              | some s =>
                  (tagCharsWith fuel c).map fun (cs, c) => (s.toList ++ cs, c)
      | some ch =>
          if isTagChar ch then
            (tagCharsWith fuel c.next).map fun (cs, c) => (ch :: cs, c)
          else .ok ([], c)
      | none => .ok ([], c)

/-- The text of a tag behind a place, which must not be empty, and the place
    behind it. -/
def tagSuffix (c : Cursor) : Except Malformed (String × Cursor) :=
  match tagCharsWith (c.rest.length + 1) c with
  | .error e => .error e
  | .ok ([], _) => .error .badToken
  | .ok (cs, c) => .ok (String.ofList cs, c)

/-- The handle behind a place: one exclamation mark before a blank, or two
    with a name between them that may be empty. -/
def tagHandle (c : Cursor) : Except Malformed (String × Cursor) :=
  match c.rest with
  | '!' :: ' ' :: _ => .ok ("!", c.next)
  | '!' :: rest =>
      let name := rest.takeWhile isNameChar
      if rest[name.length]? = some '!' then
        .ok (String.ofList ('!' :: name ++ ['!']),
          c.forward (name.length + 2))
      else .error .badToken
  | _ => .error .badToken

/-- The tag behind a place, without what must follow it. -/
def tagText (c : Cursor) : Except Malformed (TagText × Cursor) :=
  match c.peekAt 1 with
  | some '<' =>
      match tagSuffix (c.forward 2) with
      | .error e => .error e
      | .ok (suffix, c) =>
          if c.peek = some '>' then .ok (⟨none, suffix⟩, c.next)
          else .error .badToken
  | ch =>
      if Cursor.endsMark ch then .ok (⟨none, "!"⟩, c.next)
      else
        let word := (c.rest.drop 1).takeWhile fun ch =>
          !Cursor.endsWord (some ch)
        let handle :=
          if word.contains '!' then tagHandle c else .ok ("!", c.next)
        match handle with
        | .error e => .error e
        | .ok (handle, c) =>
            (tagSuffix c).map fun (suffix, c) => (⟨some handle, suffix⟩, c)

/-- The tag behind a place, and the place behind it. -/
def tagToken (c : Cursor) : Except Malformed (Token × Cursor) :=
  match tagText c with
  | .error e => .error e
  | .ok (t, c) =>
      if Cursor.endsWord c.peek then .ok (.tag t, c) else .error .badToken

/-- The number behind a place, and the place behind it. -/
def versionNumber (c : Cursor) : Except Malformed (Nat × Cursor) :=
  let (ds, c) := c.span Char.isDigit
  if ds.isEmpty then .error .badToken
  else .ok (valueIn 10 (ds.map fun d => d.toNat - 48), c)

/-- The version behind a place. -/
def versionDirective (c : Cursor) : Except Malformed (Directive × Cursor) := do
  let (major, c) ← versionNumber (c.skip (· == ' '))
  if c.peek ≠ some '.' then .error .badToken
  let (minor, c) ← versionNumber c.next
  if Cursor.endsWord c.peek then return (.version major minor, c)
  else .error .badToken

/-- The handle behind a place and what it stands for. -/
def handleDirective (c : Cursor) : Except Malformed (Directive × Cursor) := do
  let (handle, c) ← tagHandle (c.skip (· == ' '))
  if c.peek ≠ some ' ' then .error .badToken
  let (start, c) ← tagSuffix (c.skip (· == ' '))
  if Cursor.endsWord c.peek then return (.handle handle start, c)
  else .error .badToken

/-- What the line behind a percent sign says, and the place behind the
    line. -/
def directiveToken (c : Cursor) : Except Malformed (Token × Cursor) := do
  let (name, c) := c.next.span isNameChar
  if name.isEmpty || !Cursor.endsWord c.peek then .error .badToken
  let (d, c) ←
    match String.ofList name with
    | "YAML" => versionDirective c
    | "TAG" => handleDirective c
    | name => .ok (.other name, c.skip fun ch => !isBreak ch)
  let c ← c.restOfLine
  return (.directive d, c)

end PiecewiseCubic.Document
