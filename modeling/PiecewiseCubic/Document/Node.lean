import PiecewiseCubic.Document.Lexer
import PiecewiseCubic.Document.Scalar

/-! # The parts of a document

    A document is a tree of scalars, lists and records, which is read from its
    tokens.  A part may be given a name and be used again under that name
    further down; a part that is used within itself is an end of the tree. -/

namespace PiecewiseCubic.Document

/-- A part of a document. -/
inductive Node where
  | scalar (kind : Kind) (text : String)
  | list (kind : Kind) (items : List Node)
  | record (kind : Kind) (entries : List (Node × Node))
  /-- A list or record around this part. -/
  | enclosing (isRecord : Bool)
  deriving Inhabited

namespace Node

/-- A part of which nothing is written. -/
def empty : Node := .scalar (.ofSpelling "") ""

/-- The handles of tags that are known everywhere. -/
def knownHandles : List (String × String) :=
  [("!", "!"), ("!!", Kind.standard)]

/-- The reading of a tree from tokens. -/
structure Reader where
  tokens : List Token
  /-- What is wrong behind the last token. -/
  fault : Malformed
  /-- The parts with names. -/
  anchors : List (String × Node) := []
  /-- The handles of tags with what they stand for. -/
  handles : List (String × String) := knownHandles
  /-- How many lists and records are around the next token. -/
  depth : Nat := 0

/-- A reader that answers and moves on, or finds a fault. -/
abbrev Reading (β : Type) := Reader → Except Malformed (β × Reader)

/-- Looks at the next token. -/
def peek (r : Reader) : Except Malformed Token :=
  match r.tokens with
  | t :: _ => .ok t
  | [] => .error r.fault

/-- The reader behind the next token. -/
def skip (r : Reader) : Reader := { r with tokens := r.tokens.tail }

/-- What stands before a part: a name and a tag in any order. -/
structure Properties where
  anchor : Option String := none
  tag : Option TagText := none

/-- Reads a name, if there is one. -/
def readAnchor (p : Properties) : Reading Properties := fun r => do
  match ← peek r with
  | .anchor name => return ({ p with anchor := some name }, skip r)
  | _ => return (p, r)

/-- Reads a tag, if there is one. -/
def readTag (p : Properties) : Reading Properties := fun r => do
  match ← peek r with
  | .tag t => return ({ p with tag := some t }, skip r)
  | _ => return (p, r)

/-- Reads a name and a tag, of which there may be one, both or none. -/
def readProperties : Reading Properties := fun r => do
  let (p, r) ← readAnchor {} r
  let (p, r) ← readTag p r
  if p.anchor.isNone && p.tag.isSome then readAnchor p r else return (p, r)

/-- A tag written out, its handle replaced by what it stands for. -/
def spelledOut (r : Reader) (t : TagText) : Except Malformed String :=
  match t.handle with
  | none => .ok t.suffix
  | some handle =>
      match r.handles.lookup handle with
      | some start => .ok (start ++ t.suffix)
      | none => .error .badStructure

/-- The tag that is meant, nothing if there is none or an empty one, and
    whether there is an empty one. -/
def wholeTag (r : Reader) :
    Option TagText → Except Malformed (Option String × Bool)
  | none => .ok (none, false)
  | some t =>
      (spelledOut r t).map fun tag =>
        if tag = "!" then (none, true) else (some tag, false)

/-- What kind of part a tag asks for, `other` if there is none. -/
def kindOr (other : Kind) (tag : Option String) : Kind :=
  (tag.map Kind.ofTag).getD other

/-- The kind of a scalar: that of its tag, else that of its spelling if it is
    plain or has an empty tag, else a text. -/
def scalarKind (tag : Option String) (asPlain : Bool) (text : String) : Kind :=
  kindOr (if asPlain then .ofSpelling text else .text) tag

/-- Gives a name to a part, which must be new. -/
def name (anchor : Option String) (n : Node) (r : Reader) : Reader :=
  match anchor with
  | none => r
  | some a =>
      { r with anchors := (a, n) :: r.anchors.filter fun e => e.1 != a }

/-- Tells whether a name is still free. -/
def checkName (anchor : Option String) (r : Reader) : Except Malformed Unit :=
  match anchor with
  | some a =>
      if (r.anchors.lookup a).isSome then .error .badReference else .ok ()
  | none => .ok ()

/-- The most lists and records that may stand within each other. -/
def depthLimit : Nat := 488

/-- Reads what is in a list or a record. -/
def within {β : Type} (read : Reading β) : Reading β := fun r => do
  if depthLimit ≤ r.depth then .error .tooDeep
  let (v, inner) ← read { r with depth := r.depth + 1 }
  return (v, { inner with depth := r.depth })

/-- Where a part stands: within brackets, as an item or the root, or in a
    record that indentation shows, where a list need not be indented. -/
inductive Context where
  | flow
  | block
  | entry
  deriving DecidableEq

/-- Whether a token ends an item of an indented list. -/
def endsItem : Token → Bool
  | .dash | .blockEnd => true
  | _ => false

/-- Whether a token ends a key or a value of a record that indentation
    shows. -/
def endsEntry : Token → Bool
  | .key | .colon | .blockEnd => true
  | _ => false

/-- Whether a token ends a value within brackets that `close` closes. -/
def endsFlowValue (close t : Token) : Bool := t == .comma || t == close

/-- Whether a token ends a key within brackets that `close` closes. -/
def endsFlowKey (close t : Token) : Bool :=
  t == .colon || endsFlowValue close t

/-- Passes the comma before an item that is not the first one. -/
def passComma (first : Bool) (r : Reader) : Except Malformed Reader := do
  if first then return r
  match ← peek r with
  | .comma => return skip r
  | _ => .error .badStructure

mutual

/-- Reads a part. -/
def readNode : Nat → Context → Reading Node
  | 0, _, _ => .error .badStructure
  | fuel + 1, context, r => do
      match ← peek r with
      | .alias a =>
          match r.anchors.lookup a with
          | some n => return (n, skip r)
          | none => .error .badReference
      | _ =>
          let (p, r) ← readProperties r
          let (tag, emptyTag) ← wholeTag r p.tag
          let list (items : Reading (List Node)) :
              Except Malformed (Node × Reader) := do
            checkName p.anchor r
            let (ns, r) ← within items (name p.anchor (.enclosing false) r)
            let n := Node.list (kindOr .list tag) ns
            return (n, name p.anchor n r)
          let record (entries : Reading (List (Node × Node))) :
              Except Malformed (Node × Reader) := do
            checkName p.anchor r
            let (es, r) ← within entries (name p.anchor (.enclosing true) r)
            let n := Node.record (kindOr .record tag) es
            return (n, name p.anchor n r)
          let scalar (plain : Bool) (s : String) (r : Reader) :
              Except Malformed (Node × Reader) := do
            checkName p.anchor r
            let n := Node.scalar (scalarKind tag plain s) s
            return (n, name p.anchor n r)
          match ← peek r, context with
          | .dash, .entry => list (readHanging fuel)
          | .scalar s plain, _ => scalar (plain || emptyTag) s (skip r)
          | .openList, _ => list fun r => readItems fuel true (skip r)
          | .openRecord, _ =>
              record fun r => readFlowEntries fuel true (skip r)
          | t, context =>
              if t == .blockList && context != .flow then
                list fun r => readBlockItems fuel (skip r)
              else if t == .blockRecord && context != .flow then
                record fun r => readEntries fuel (skip r)
              else if p.anchor.isSome || p.tag.isSome then scalar true "" r
              else .error .badStructure

/-- Reads a part unless the next token ends it before it begins. -/
def readUnless : Nat → Context → (Token → Bool) → Reading Node
  | 0, _, _, _ => .error .badStructure
  | fuel + 1, context, ends, r => do
      if ends (← peek r) then return (.empty, r) else readNode fuel context r

/-- Reads a value behind its colon, if there is one. -/
def readValue : Nat → Context → (Token → Bool) → Reading Node
  | 0, _, _, _ => .error .badStructure
  | fuel + 1, context, ends, r => do
      match ← peek r with
      | .colon => readUnless fuel context ends (skip r)
      | _ => return (.empty, r)

/-- Reads the items of an indented list, and its end. -/
def readBlockItems : Nat → Reading (List Node)
  | 0, _ => .error .badStructure
  | fuel + 1, r => do
      match ← peek r with
      | .dash =>
          let (n, r) ← readUnless fuel .block endsItem (skip r)
          let (ns, r) ← readBlockItems fuel r
          return (n :: ns, r)
      | .blockEnd => return ([], skip r)
      | _ => .error .badStructure

/-- Reads the items of a list that is not indented further than the record
    that it is in. -/
def readHanging : Nat → Reading (List Node)
  | 0, _ => .error .badStructure
  | fuel + 1, r => do
      match ← peek r with
      | .dash =>
          let ends (t : Token) := endsItem t || endsEntry t
          let (n, r) ← readUnless fuel .block ends (skip r)
          let (ns, r) ← readHanging fuel r
          return (n :: ns, r)
      | _ => return ([], r)

/-- Reads the entries of a record that indentation shows, and its end. -/
def readEntries : Nat → Reading (List (Node × Node))
  | 0, _ => .error .badStructure
  | fuel + 1, r => do
      match ← peek r with
      | .key =>
          let (k, r) ← readUnless fuel .entry endsEntry (skip r)
          let (v, r) ← readValue fuel .entry endsEntry r
          let (es, r) ← readEntries fuel r
          return ((k, v) :: es, r)
      | .blockEnd => return ([], skip r)
      | _ => .error .badStructure

/-- Reads the items of a list in brackets, and its end.  A key begins an item
    that is a record with one entry. -/
def readItems : Nat → Bool → Reading (List Node)
  | 0, _, _ => .error .badStructure
  | fuel + 1, first, r => do
      if (← peek r) == .closeList then return ([], skip r)
      let r ← passComma first r
      match ← peek r with
      | .closeList => return ([], skip r)
      | .key =>
          let (k, r) ← readUnless fuel .flow (endsFlowKey .closeList) (skip r)
          let (v, r) ← readValue fuel .flow (endsFlowValue .closeList) r
          let (ns, r) ← readItems fuel false r
          return (.record .record [(k, v)] :: ns, r)
      | _ =>
          let (n, r) ← readNode fuel .flow r
          let (ns, r) ← readItems fuel false r
          return (n :: ns, r)

/-- Reads the entries of a record in brackets, and its end.  An item without
    colon is a key without a value. -/
def readFlowEntries : Nat → Bool → Reading (List (Node × Node))
  | 0, _, _ => .error .badStructure
  | fuel + 1, first, r => do
      if (← peek r) == .closeRecord then return ([], skip r)
      let r ← passComma first r
      match ← peek r with
      | .closeRecord => return ([], skip r)
      | .key =>
          let (k, r) ←
            readUnless fuel .flow (endsFlowKey .closeRecord) (skip r)
          let (v, r) ← readValue fuel .flow (endsFlowValue .closeRecord) r
          let (es, r) ← readFlowEntries fuel false r
          return ((k, v) :: es, r)
      | _ =>
          let (k, r) ← readNode fuel .flow r
          let (es, r) ← readFlowEntries fuel false r
          return ((k, .empty) :: es, r)

end

/-- Passes the marks at the end of a document. -/
def passEnds : Nat → Reader → Except Malformed Reader
  | 0, r => .ok r
  | fuel + 1, r => do
      match ← peek r with
      | .documentEnd => passEnds fuel (skip r)
      | _ => return r

/-- Reads the lines before a document that say something about it: one
    version, which must be one of the first edition, and different handles. -/
def readDirectives (versioned : Bool) (handles : List (String × String)) :
    Nat → Reader → Except Malformed Reader
  | 0, r => .ok { r with handles := handles ++ knownHandles }
  | fuel + 1, r => do
      match ← peek r with
      | .directive (.version major _) =>
          if versioned || major != 1 then .error .badStructure
          readDirectives true handles fuel (skip r)
      | .directive (.handle handle start) =>
          if (handles.lookup handle).isSome then .error .badStructure
          readDirectives versioned ((handle, start) :: handles) fuel (skip r)
      | .directive (.other _) =>
          readDirectives versioned handles fuel (skip r)
      | _ => return { r with handles := handles ++ knownHandles }

/-- Reads the beginning of a document that is marked. -/
def readStart (r : Reader) : Except Malformed Reader := do
  let r ← readDirectives false [] (r.tokens.length + 1) r
  match ← peek r with
  | .documentStart => return skip r
  | _ => .error .badStructure

/-- Whether a token ends a document before it begins. -/
def endsDocument : Token → Bool
  | .directive _ | .documentStart | .documentEnd | .streamEnd => true
  | _ => false

/-- How many steps are enough to read a part from tokens. -/
def fuelFor (r : Reader) : Nat := 4 * r.tokens.length + 8

/-- Reads a document: its beginning, if that is marked, and its root. -/
def readDocument (r : Reader) : Except Malformed (Node × Reader) := do
  match ← peek r with
  | .directive _ | .documentStart =>
      let r ← readStart r
      readUnless (fuelFor r) .block endsDocument r
  | _ => readNode (fuelFor r) .block r

/-- Tells whether there is nothing more behind a document. -/
def checkEnd (r : Reader) : Except Malformed Unit := do
  let r ← passEnds (r.tokens.length + 1) r
  match ← peek r with
  | .streamEnd => return ()
  | _ =>
      let _ ← readStart r
      .error .badReference

/-- The root of the only document in a text, if there is one. -/
def ofText? (text : List Char) : Except Malformed (Option Node) := do
  let (tokens, fault) := tokensOf text
  let r : Reader := { tokens, fault := fault.getD .badToken }
  match ← peek r with
  | .streamEnd => return none
  | _ =>
      let (n, r) ← readDocument r
      checkEnd r
      return some n

end Node

end PiecewiseCubic.Document
