import PiecewiseCubic.Document.Node

/-! # The value of a document

    The parts of a document stand for literals.  A key is a scalar; the last
    of equal keys wins, in the place of the first one.  A record may take in
    the entries of others, which come first, so that its own ones win.  The
    parts are read level by level: of two faults, the one that is less deep
    shows, and of two on one level the first. -/

namespace PiecewiseCubic.Document

/-- What is wrong with a part, and how deep it is. -/
structure Flaw where
  depth : Nat
  cause : Malformed

/-- What is read of a part, or what is wrong with it. -/
abbrev Outcome (β : Type) := Except Flaw β

namespace Outcome

/-- An outcome at a depth. -/
def atDepth {β : Type} (depth : Nat) : Except Malformed β → Outcome β
  | .ok v => .ok v
  | .error cause => .error ⟨depth, cause⟩

/-- Joins two outcomes; of two flaws, the second one shows only if it is less
    deep. -/
def join {β γ δ : Type} (f : β → γ → δ) : Outcome β → Outcome γ → Outcome δ
  | .ok a, .ok b => .ok (f a b)
  | .error e, .ok _ => .error e
  | .ok _, .error e => .error e
  | .error e, .error e' => .error (if e'.depth < e.depth then e' else e)

/-- Joins the outcomes in a list. -/
def all {β : Type} : List (Outcome β) → Outcome (List β)
  | [] => .ok []
  | o :: os => join List.cons o (all os)

end Outcome

/-- The entries that a record takes in from others, and its own ones. -/
structure Entries where
  merged : List (Outcome (Literal × Literal))
  own : List (Outcome (Literal × Literal))

/-- All entries, those taken in first. -/
def Entries.all (e : Entries) : List (Outcome (Literal × Literal)) :=
  e.merged ++ e.own

/-- Entries without those before them that have the same key. -/
def distinct (entries : List (Literal × Literal)) :
    List (Literal × Literal) :=
  entries.foldl (fun es e => Literal.insertEntry e.1 e.2 es) []

/-- The text of a scalar, or of the part of a record that stands for it. -/
def scalarText? : Node → Option String
  | .scalar _ s => some s
  | .record _ ((.scalar .default _, .scalar _ s) :: _) => some s
  | _ => none

/-- What a part stands for that is to be read as a scalar. -/
def scalarOf (kind : Kind) (n : Node) : Except Malformed Literal :=
  match scalarText? n with
  | some s => scalarValue kind s
  | none => .error .badValue

/-- What a key stands for, which must be a scalar.  The sign for the value of
    a record is a text as a key. -/
def keyValue (n : Node) : Except Malformed Literal :=
  match n with
  | .scalar .default s => .ok (.text s)
  | .scalar kind _ | .record kind _ => scalarOf kind n
  | _ => .error .badValue

/-- Whether a key asks for records to be taken in. -/
def isMerge : Node → Bool
  | .scalar kind _ | .list kind _ | .record kind _ => kind == .merge
  | .enclosing _ => false

/-- Where it shows that a part is not of a kind: with the part itself, or with
    what is in it if the kind has parts. -/
def Kind.depthOf (depth : Nat) : Kind → Nat
  | .list | .record | .keys | .entries => depth + 1
  | _ => depth

mutual

/-- What a part stands for. -/
def nodeValue (depth : Nat) : Node → Outcome Literal
  | .scalar kind s =>
      .atDepth (kind.depthOf depth) (scalarValue kind s)
  | .list .list ns => (Outcome.all (itemValues (depth + 1) ns)).map .list
  | .list .entries ns =>
      (Outcome.all (pairValues (depth + 1) ns)).map .list
  | .list kind _ => .error ⟨kind.depthOf depth, .badValue⟩
  | .record .record es =>
      (recordValue (depth + 1) es).map fun es => .record (distinct es)
  | .record .keys es =>
      (recordValue (depth + 1) es).map fun es =>
        .set ((distinct es).map Prod.fst)
  | .record kind es =>
      .atDepth (kind.depthOf depth) (scalarOf kind (.record kind es))
  | .enclosing isRecord => .ok (.enclosing isRecord)

/-- What the items of a list stand for. -/
def itemValues (depth : Nat) : List Node → List (Outcome Literal)
  | [] => []
  | n :: ns => nodeValue depth n :: itemValues depth ns

/-- What a list of records with one entry each stands for. -/
def pairValues (depth : Nat) : List Node → List (Outcome Literal)
  | [] => []
  | .record _ [(k, v)] :: ns =>
      Outcome.join .pair (nodeValue depth k) (nodeValue depth v)
        :: pairValues depth ns
  | _ :: _ => [.error ⟨depth, .badValue⟩]

/-- What the entries of a record stand for. -/
def recordValue (depth : Nat) (es : List (Node × Node)) :
    Outcome (List (Literal × Literal)) :=
  match entryValues depth es with
  | .error cause => .error ⟨depth, cause⟩
  | .ok entries => Outcome.all entries.all

/-- The entries of a record, unless it takes in what is no record. -/
def entryValues (depth : Nat) :
    List (Node × Node) → Except Malformed Entries
  | [] => .ok ⟨[], []⟩
  | (k, v) :: es =>
      if isMerge k then
        match mergedEntries depth v, entryValues depth es with
        | .error e, _ => .error e
        | .ok _, .error e => .error e
        | .ok taken, .ok e => .ok { e with merged := taken ++ e.merged }
      else
        let entry :=
          Outcome.join Prod.mk (.atDepth depth (keyValue k))
            (nodeValue depth v)
        (entryValues depth es).map fun e => { e with own := entry :: e.own }

/-- The entries that a record, or a list of records, gives away. -/
def mergedEntries (depth : Nat) :
    Node → Except Malformed (List (Outcome (Literal × Literal)))
  | .record _ es => (entryValues depth es).map Entries.all
  | .list _ ns => recordEntries depth ns
  | .enclosing _ => .ok []
  | .scalar _ _ => .error .badValue

/-- The entries of all records of a list, those of the last one first. -/
def recordEntries (depth : Nat) :
    List Node → Except Malformed (List (Outcome (Literal × Literal)))
  | [] => .ok []
  | .record _ es :: ns =>
      match entryValues depth es, recordEntries depth ns with
      | .error e, _ => .error e
      | .ok _, .error e => .error e
      | .ok e, .ok rest => .ok (rest ++ e.all)
  | .enclosing _ :: ns => recordEntries depth ns
  | _ :: _ => .error .badValue

end

/-- Whether a character may stand in a document. -/
def isAllowed (c : Char) : Bool :=
  let n := c.toNat
  n == 9 || n == 10 || n == 0x85 || (0x20 ≤ n && n ≤ 0x7e)
    || (0xa0 ≤ n && n != 0xfffe && n != 0xffff && (Text.half? c).isNone)

/-- A text whose lines all end alike. -/
def unifyLineEnds : List Char → List Char
  | '\r' :: '\n' :: cs => '\n' :: unifyLineEnds cs
  | '\r' :: cs => '\n' :: unifyLineEnds cs
  | c :: cs => c :: unifyLineEnds cs
  | [] => []

/-- What the text of a document stands for; an empty one stands for
    nothing. -/
def value (s : String) : Except Malformed Literal := do
  let text := unifyLineEnds s.toList
  if !text.all isAllowed then .error .unprintable
  match ← Node.ofText? text with
  | some n =>
      match nodeValue 0 n with
      | .ok v => return v
      | .error flaw => .error flaw.cause
  | none => return .null

end PiecewiseCubic.Document
