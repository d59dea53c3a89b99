import PiecewiseCubic.Document.Cursor

/-! # Quoted scalars of a document

    A scalar in single quotes stands for its characters, a quote being written
    twice.  In double quotes a backslash begins an escape.  A line end with
    the blanks around it stands for one blank, and every further line end for
    itself. -/

namespace PiecewiseCubic.Document

/-- The character of a one-letter escape. -/
def escaped? : Char → Option Char
  | '0' => some (Char.ofNat 0)
  | 'a' => some (Char.ofNat 7)
  | 'b' => some (Char.ofNat 8)
  | 't' => some '\t'
  | '\t' => some '\t'
  | 'n' => some '\n'
  | 'v' => some (Char.ofNat 11)
  | 'f' => some (Char.ofNat 12)
  | 'r' => some '\r'
  | 'e' => some (Char.ofNat 27)
  | ' ' => some ' '
  | '"' => some '"'
  | '\\' => some '\\'
  | '/' => some '/'
  | 'N' => some '\x85'
  | '_' => some '\xa0'
  | 'L' => some '\u2028'
  | 'P' => some '\u2029'
  | _ => none

/-- How many digits follow the letter of an escape by number. -/
def escapeWidth? : Char → Option Nat
  | 'x' => some 2
  | 'u' => some 4
  | 'U' => some 8
  | _ => none

/-- The value of a digit in a base up to sixteen. -/
def digitIn? (base : Nat) (c : Char) : Option Nat :=
  let d :=
    if c.isDigit then c.toNat - 48
    else if 'a' ≤ c ∧ c ≤ 'f' then c.toNat - 87
    else if 'A' ≤ c ∧ c ≤ 'F' then c.toNat - 55
    else base
  if d < base then some d else none

/-- The number that digits of a base spell, highest digit first. -/
def valueIn (base : Nat) (ds : List Nat) : Nat :=
  ds.foldl (fun n d => n * base + d) 0

/-- The numbers from which on not even a character could be asked for. -/
def codeLimit : Nat := Nat.pow 2 31

/-- The character with a number. -/
def charOfCode (n : Nat) : Except Malformed Char :=
  match Text.ofCode? n with
  | some c => .ok c
  | none => .error (if codeLimit ≤ n then .tooLarge else .invalidSpelling)

/-- The character of an escape by number, whose digits are behind a place. -/
def numberedEscape (width : Nat) (c : Cursor) :
    Except Malformed (Char × Cursor) :=
  match (c.rest.take width).mapM (digitIn? 16) with
  | none => .error .badToken
  | some ds =>
      if ds.length = width then
        (charOfCode (valueIn 16 ds)).map fun ch => (ch, c.forward width)
      else .error .badToken

/-- The line ends behind a place, which is at the beginning of a line, with
    the blanks before and behind them dropped.  No document may end there. -/
def quotedBreaks : Nat → Cursor → Except Malformed (List Char × Cursor)
  | 0, c => .ok ([], c)
  | fuel + 1, c =>
      if c.isDivider then .error .badToken
      else
        let c := c.skip isSpace
        match c.lineBreak? with
        | none => .ok ([], c)
        | some (br, c) =>
            (quotedBreaks fuel c).map fun (brs, c) => (br :: brs, c)

/-- What a line end and those that follow it stand for. -/
def foldedBreaks (br : Char) (further : List Char) : List Char :=
  if br ≠ '\n' then br :: further
  else if further.isEmpty then [' ']
  else further

/-- What the blanks and line ends within quotes stand for. -/
def quotedGap (c : Cursor) : Except Malformed (List Char × Cursor) :=
  let (blanks, c) := c.span isSpace
  if c.rest.isEmpty then .error .badToken
  else
    match c.lineBreak? with
    | none => .ok (blanks, c)
    | some (br, c) =>
        (quotedBreaks (c.rest.length + 1) c).map fun (further, c) =>
          (foldedBreaks br further, c)

/-- Whether a gap within quotes begins with a character. -/
def beginsGap (c : Char) : Bool := isSpace c || isBreak c

/-- What an escape stands for, from the place behind its backslash. -/
def escape (c : Cursor) : Except Malformed (List Char × Cursor) :=
  match c.peek with
  | none => .error .badToken
  | some e =>
      match escaped? e, escapeWidth? e with
      | some ch, _ => .ok ([ch], c.next)
      | none, some width =>
          (numberedEscape width c.next).map fun (ch, c) => ([ch], c)
      | none, none =>
          if isBreak e then quotedBreaks (c.rest.length + 1) c.next
          else .error .badToken

/-- What is left of a scalar in single quotes, from a place within it, and the
    place behind its closing quote. -/
def singleQuotedWith : Nat → Cursor → Except Malformed (List Char × Cursor)
  | 0, _ => .error .badToken
  | fuel + 1, c =>
      match c.rest with
      | [] => .error .badToken
      | '\'' :: '\'' :: _ =>
          (singleQuotedWith fuel (c.forward 2)).map fun (s, c) =>
            ('\'' :: s, c)
      | '\'' :: _ => .ok ([], c.next)
      | ch :: _ =>
          if beginsGap ch then
            match quotedGap c with
            | .error e => .error e
            | .ok (gap, c) =>
                (singleQuotedWith fuel c).map fun (s, c) => (gap ++ s, c)
          else
            (singleQuotedWith fuel c.next).map fun (s, c) => (ch :: s, c)

/-- What is left of a scalar in double quotes, from a place within it, and the
    place behind its closing quote. -/
def doubleQuotedWith : Nat → Cursor → Except Malformed (List Char × Cursor)
  | 0, _ => .error .badToken
  | fuel + 1, c =>
      match c.rest with
      | [] => .error .badToken
      | '"' :: _ => .ok ([], c.next)
      | '\\' :: _ =>
          match escape c.next with
          | .error e => .error e
          | .ok (chs, c) =>
              (doubleQuotedWith fuel c).map fun (s, c) => (chs ++ s, c)
      | ch :: _ =>
          if beginsGap ch then
            match quotedGap c with
            | .error e => .error e
            | .ok (gap, c) =>
                (doubleQuotedWith fuel c).map fun (s, c) => (gap ++ s, c)
          else
            (doubleQuotedWith fuel c.next).map fun (s, c) => (ch :: s, c)

/-- The text of the scalar in single quotes behind a place, and the place
    behind it. -/
def singleQuoted (c : Cursor) : Except Malformed (List Char × Cursor) :=
  singleQuotedWith (c.rest.length + 1) c.next

/-- The text of the scalar in double quotes behind a place, and the place
    behind it. -/
def doubleQuoted (c : Cursor) : Except Malformed (List Char × Cursor) :=
  doubleQuotedWith (c.rest.length + 1) c.next

/-- A quote is written twice. -/
example : (singleQuoted (.start "'it''s'".toList)).toOption.map
    (fun r => String.ofList r.1) = some "it's" := by
  cbv

end PiecewiseCubic.Document
