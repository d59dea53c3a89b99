import PiecewiseCubic.Decimal.Double
import PiecewiseCubic.Document.Quoted
import PiecewiseCubic.Literal.Basic
import PiecewiseCubic.Text.Base64

/-! # Kinds of scalars in a document

    A plain scalar is of the kind that it is spelt like: nothing, a truth
    value, a number, a moment, or a text.  A tag may ask for a kind instead.
    A scalar of a kind is then read as one, which may fail. -/

namespace PiecewiseCubic.Document

open Text

/-- What a part of a document is to be read as. -/
inductive Kind where
  | null
  | bool
  | int
  | real
  | moment
  | text
  /-- Bytes, which only a tag asks for. -/
  | bytes
  | list
  | record
  /-- A record whose values do not matter. -/
  | keys
  /-- A list of records with one entry each. -/
  | entries
  /-- The key whose value is records to be merged in. -/
  | merge
  /-- The key whose value stands for the record. -/
  | default
  | unknown
  deriving DecidableEq, Repr

namespace Kind

/-- The beginning of the tags of the standard. -/
def standard : String := "tag:yaml.org,2002:"

/-- The kinds that the tags of the standard ask for. -/
def names : List (String × Kind) :=
  [("null", .null), ("bool", .bool), ("int", .int), ("float", .real),
    ("timestamp", .moment), ("str", .text), ("binary", .bytes),
    ("seq", .list), ("map", .record), ("set", .keys), ("omap", .entries),
    ("pairs", .entries), ("merge", .merge), ("value", .default)]

/-- The kind that a whole tag asks for. -/
def ofTag (tag : String) : Kind :=
  match names.find? fun e => standard ++ e.1 == tag with
  | some (_, kind) => kind
  | none => .unknown

end Kind

/-! ## Spelling -/

/-- The words for nothing. -/
def nullWords : List String := ["", "~", "null", "Null", "NULL"]

/-- The truth value of a word in small letters. -/
def truthOf? : String → Option Bool
  | "yes" => some true
  | "no" => some false
  | "true" => some true
  | "false" => some false
  | "on" => some true
  | "off" => some false
  | _ => none

/-- Whether a word is small, capital, or capital in its first letter. -/
def hasPlainCase (cs : List Char) : Bool :=
  let small := cs.map Char.toLower
  cs == small || cs == cs.map Char.toUpper
    || cs == (small.take 1).map Char.toUpper ++ small.drop 1

/-- Whether a scalar is spelt like a truth value. -/
def isTruthSpelling (cs : List Char) : Bool :=
  (truthOf? (String.ofList (cs.map Char.toLower))).isSome && hasPlainCase cs

/-- Whether a character is a digit of a base or an underscore. -/
def isDigitMark (base : Nat) (c : Char) : Bool :=
  (digitIn? base c).isSome || c == '_'

/-- Whether a text is a row of digits of a base and underscores. -/
def isDigits (base : Nat) (cs : List Char) : Bool :=
  !cs.isEmpty && cs.all (isDigitMark base)

/-- Whether a text is a part of a number in sixties. -/
def isSixtieth : List Char → Bool
  | [a] => a.isDigit
  | [a, b] => '0' ≤ a && a ≤ '5' && b.isDigit
  | _ => false

/-- The parts of a text between its colons. -/
def colonParts (cs : List Char) : List (List Char) := splitWhere (· == ':') cs

/-- Whether a text without sign is spelt like an integer: decimal without a
    zero in front, with a mark of its base, or in sixties. -/
def isUnsignedInteger : List Char → Bool
  | ['0'] => true
  | '0' :: 'b' :: cs => isDigits 2 cs
  | '0' :: 'x' :: cs => isDigits 16 cs
  | '0' :: cs => isDigits 8 cs
  | c :: cs =>
      c.isDigit
        && match colonParts (c :: cs) with
          | first :: rest => isDigits 10 first && rest.all isSixtieth
          | [] => false
  | [] => false

/-- Whether a scalar is spelt like an integer. -/
def isIntegerSpelling (cs : List Char) : Bool :=
  isUnsignedInteger (Numeral.splitSign cs).2

/-- Whether a power of ten ends a decimal: it has a sign and digits. -/
def isSignedExponent : List Char → Bool
  | [] => true
  | e :: s :: d :: ds =>
      (e == 'e' || e == 'E') && (s == '+' || s == '-')
        && (d :: ds).all Char.isDigit
  | _ => false

/-- Whether a decimal with a point is spelt as one, with digits or underscores
    on the sides where it has any; without digits before the point it must not
    have a sign. -/
def isPointed (signed : Bool) (cs : List Char) : Bool :=
  let whole := cs.takeWhile (isDigitMark 10)
  match cs.dropWhile (isDigitMark 10) with
  | '.' :: rest =>
      let frac := rest.takeWhile (isDigitMark 10)
      let starts :=
        match whole, frac with
        | w :: _, _ => w.isDigit
        | [], f :: _ => f.isDigit && !signed
        | [], [] => false
      starts && isSignedExponent (rest.dropWhile (isDigitMark 10))
  | _ => false

/-- Whether a text is spelt like a number in sixties with a point. -/
def isPointedInSixties (cs : List Char) : Bool :=
  let before := cs.takeWhile (· != '.')
  match cs.dropWhile (· != '.'), colonParts before with
  | '.' :: frac, first :: second :: rest =>
      frac.all (isDigitMark 10) && isDigits 10 first
        && first.head?.any Char.isDigit && (second :: rest).all isSixtieth
  | _, _ => false

/-- Whether a scalar is spelt like a number with a point. -/
def isRealSpelling (cs : List Char) : Bool :=
  let rest := (Numeral.splitSign cs).2
  let signed := rest.length != cs.length
  match String.ofList rest with
  | ".inf" | ".Inf" | ".INF" => true
  | ".nan" | ".NaN" | ".NAN" => !signed
  | _ => isPointed signed rest || isPointedInSixties rest

/-! ## Moments -/

/-- A moment as it is spelt, which need not exist. -/
structure MomentSpelling where
  moment : Moment
  /-- Whether month and day have two digits each. -/
  full : Bool
  deriving Repr

/-- The number spelt by one or two digits at the beginning of a text, whether
    there are two, and what follows. -/
def shortNumber? : List Char → Option (Nat × Bool × List Char)
  | a :: cs =>
      match asciiDigit? a with
      | none => none
      | some m =>
          match cs with
          | b :: rest =>
              match asciiDigit? b with
              | some n => some (m * 10 + n, true, rest)
              | none => some (m, false, cs)
          | [] => some (m, false, [])
  | [] => none

/-- The number spelt by two digits behind a mark, and what follows. -/
def markedNumber? (mark : Char) : List Char → Option (Nat × List Char)
  | c :: cs =>
      if c = mark then
        match shortNumber? cs with
        | some (n, true, rest) => some (n, rest)
        | _ => none
      else none
  | [] => none

/-- The millionths that digits behind a point spell. -/
def millionths (ds : List Char) : Nat :=
  let six := (ds ++ List.replicate 6 '0').take 6
  valueOfDigits (six.map fun d => d.toNat - 48)

/-- The distance from universal time that fills a text: nothing, the letter
    for none, or a sign with hours and perhaps minutes. -/
def aheadOf? : List Char → Option (Option Int)
  | [] => some none
  | ['Z'] => some (some 0)
  | s :: cs =>
      if s = '+' ∨ s = '-' then
        match shortNumber? cs with
        | none => none
        | some (hours, _, rest) =>
            let minutes? : Option Nat :=
              if rest.isEmpty then some 0
              else
                match markedNumber? ':' rest with
                | some (minutes, []) => some minutes
                | _ => none
            minutes?.map fun minutes =>
              let ahead : Int := (hours * 60 + minutes : Nat)
              some (if s = '-' then -ahead else ahead)
      else none

/-- The time of day that fills a text. -/
def clockTime? (cs : List Char) : Option ClockTime := do
  let (hour, _, cs) ← shortNumber? cs
  let (minute, cs) ← markedNumber? ':' cs
  let (second, cs) ← markedNumber? ':' cs
  let (frac, cs) :=
    match cs with
    | '.' :: cs => (cs.takeWhile Char.isDigit, cs.dropWhile Char.isDigit)
    | cs => ([], cs)
  let ahead ← aheadOf? (cs.dropWhile isSpace)
  if ahead.isNone && !cs.isEmpty then none
  else some ⟨hour, minute, second, millionths frac, ahead⟩

/-- The time of day behind a date: behind a letter or blanks. -/
def timeBehind? : List Char → Option (Option ClockTime)
  | [] => some none
  | c :: cs =>
      if c = 'T' ∨ c = 't' then (clockTime? cs).map some
      else if isSpace c then (clockTime? (cs.dropWhile isSpace)).map some
      else none

/-- A text without the line end behind it, if there is one. -/
def withoutLineEnd (cs : List Char) : List Char :=
  if cs.getLast? = some '\n' then cs.dropLast else cs

/-- The moment that fills a text, as it is spelt. -/
def momentSpelling? (cs : List Char) : Option MomentSpelling := do
  let year := cs.takeWhile Char.isDigit
  if year.length ≠ 4 then none
  match cs.drop 4 with
  | '-' :: cs =>
      let (month, longMonth, cs) ← shortNumber? cs
      match cs with
      | '-' :: cs =>
          let (day, longDay, cs) ← shortNumber? cs
          let time ← timeBehind? cs
          some ⟨⟨valueOfDigits (year.map fun d => d.toNat - 48), month, day,
            time⟩, longMonth && longDay⟩
      | _ => none
  | _ => none

/-- Whether a scalar is spelt like a moment; a day alone has two digits for
    its month and two for itself. -/
def isMomentSpelling (cs : List Char) : Bool :=
  (momentSpelling? cs).any fun s => s.full || s.moment.time.isSome

/-! ## Reading -/

/-- The kind that a word is spelt like. -/
def Kind.ofWord (cs : List Char) : Kind :=
  let s := String.ofList cs
  if nullWords.contains s then .null
  else if isTruthSpelling cs then .bool
  else if isRealSpelling cs then .real
  else if isIntegerSpelling cs then .int
  else if isMomentSpelling cs then .moment
  else if s == "<<" then .merge
  else if s == "=" then .default
  else .text

/-- The kind that a plain scalar is spelt like.  A line end behind it does not
    count, unless there is nothing else. -/
def Kind.ofSpelling (s : String) : Kind :=
  if s == "\n" then .text else ofWord (withoutLineEnd s.toList)

/-- The letter that marks the digits of a base. -/
def baseMark (base : Nat) : Char :=
  if base = 2 then 'b' else if base = 8 then 'o' else 'x'

/-- The digits of a base behind its mark, if that is there. -/
def dropMark (base : Nat) : List Char → List Char
  | '0' :: c :: cs => if c.toLower = baseMark base then cs else '0' :: c :: cs
  | cs => cs

/-- The integer in the digits of a base, before which a sign and a mark of the
    base may stand. -/
def digitsIn (base : Nat) (cs : List Char) : Except Malformed Int :=
  let (negative, cs) := Numeral.splitSign ((trim cs).map toAsciiDigit)
  match (dropMark base cs).mapM (digitIn? base) with
  | some (d :: ds) =>
      let n : Int := valueIn base (d :: ds)
      .ok (if negative then -n else n)
  | _ => .error .invalidSpelling

/-- The integer that a decimal text spells. -/
def decimalInteger (cs : List Char) : Except Malformed Int :=
  match Numeral.looseInteger? cs with
  | some n => .ok n
  | none => .error .invalidSpelling

/-- The integer spelt without a sign and without underscores. -/
def unsignedInteger : List Char → Except Malformed Int
  | [] => .error .emptySpelling
  | ['0'] => .ok 0
  | '0' :: 'b' :: cs => digitsIn 2 cs
  | '0' :: 'x' :: cs => digitsIn 16 cs
  | '0' :: cs => digitsIn 8 ('0' :: cs)
  | cs =>
      ((colonParts cs).mapM decimalInteger).map fun parts =>
        parts.foldl (fun n part => n * 60 + part) 0

/-- A text without its underscores. -/
def withoutUnderscores (s : String) : List Char :=
  s.toList.filter (· != '_')

/-- The integer that a scalar spells. -/
def readInteger (s : String) : Except Malformed Int :=
  let (negative, cs) := Numeral.splitSign (withoutUnderscores s)
  (unsignedInteger cs).map fun n => if negative then -n else n

/-- The double that a decimal text spells. -/
def decimalReal (cs : List Char) : Except Malformed Float :=
  match Numeral.looseNumeral? cs with
  | some n => .ok (Double.ofNumeral n)
  | none => .error .invalidSpelling

/-- The double in sixties whose parts are given, the last one first. -/
def sumOfSixties (unit : Float) : List Float → Float → Float
  | [], sum => sum
  | part :: parts, sum => sumOfSixties (unit * 60) parts (sum + part * unit)

/-- The double spelt without a sign and without underscores, in small
    letters. -/
def unsignedReal (cs : List Char) : Except Malformed Float :=
  match String.ofList cs with
  | "" => decimalReal cs
  | ".inf" => .ok (1 / 0)
  | ".nan" => .ok (0 / 0)
  | _ =>
      match colonParts cs with
      | _ :: _ :: _ =>
          ((colonParts cs).mapM decimalReal).map fun parts =>
            sumOfSixties 1 parts.reverse 0
      | _ => decimalReal cs

/-- The double that a scalar spells. -/
def readReal (s : String) : Except Malformed Float :=
  let cs := (withoutUnderscores s).map Char.toLower
  if cs.isEmpty then .error .emptySpelling
  else
    let (negative, cs) := Numeral.splitSign cs
    (unsignedReal cs).map fun x => if negative then -x else x

/-- The truth value that a scalar spells, in letters of any size. -/
def readBool (s : String) : Except Malformed Bool :=
  match truthOf? (String.ofList (s.toList.map Char.toLower)) with
  | some b => .ok b
  | none => .error .unknownWord

/-- The moment that a scalar spells. -/
def readMoment (s : String) : Except Malformed Moment :=
  match momentSpelling? (withoutLineEnd s.toList) with
  | none => .error .noMoment
  | some spelt =>
      if spelt.moment.exists? then .ok spelt.moment
      else .error .invalidSpelling

/-- The bytes that a scalar spells, which must be of ASCII characters. -/
def readBytes (s : String) : Except Malformed (List UInt8) :=
  if s.toList.all fun c => c.toNat < 0x80 then
    match Base64.decode? s.toList with
    | some bs => .ok bs
    | none => .error .badValue
  else .error .badValue

/-- What a scalar of a kind stands for. -/
def scalarValue (kind : Kind) (s : String) : Except Malformed Literal :=
  match kind with
  | .null => .ok .null
  | .bool => (readBool s).map .bool
  | .int => (readInteger s).map .int
  | .real => (readReal s).map .real
  | .moment => (readMoment s).map .moment
  | .text => .ok (.text s)
  | .bytes => (readBytes s).map .bytes
  | _ => .error .badValue

end PiecewiseCubic.Document
