import PiecewiseCubic.Decimal.Double
import PiecewiseCubic.Text.Quoted

/-! # Command lines — options, their values and their faults

    An option begins with two dashes and may be cut down to any beginning
    that no other option shares.  Its value is the next word, or what follows
    an equals sign.  A word that looks like a negative number is a value, any
    other word with a dash in front is an option.  All words are told apart
    before the first value is read.  Two dashes behind an equals sign leave an
    option without a value, but given. -/

namespace PiecewiseCubic.CommandLine

/-- The options of the tool. -/
inductive Switch where
  | help
  | input
  | family
  | m0
  | m1
  | sort
  | noSort
  | x0
  | x1
  | npoints
  | output
  | figure
  | config
  | logLevel
  | version
  deriving DecidableEq, Repr

/-- The names of all options, in the order in which they are listed. -/
def names : List (String × Switch) :=
  [("-h", .help), ("--help", .help), ("--input", .input), ("--type", .family),
    ("--m0", .m0), ("--m1", .m1), ("--sort", .sort), ("--no-sort", .noSort),
    ("--x0", .x0), ("--x1", .x1), ("--npoints", .npoints),
    ("--output", .output), ("--figure", .figure), ("--config", .config),
    ("--log_level", .logLevel), ("--version", .version)]

/-- The name of an option in a message. -/
def Switch.name : Switch → String
  | .help => "-h/--help"
  | .input => "--input"
  | .family => "--type"
  | .m0 => "--m0"
  | .m1 => "--m1"
  | .sort => "--sort"
  | .noSort => "--no-sort"
  | .x0 => "--x0"
  | .x1 => "--x1"
  | .npoints => "--npoints"
  | .output => "--output"
  | .figure => "--figure"
  | .config => "--config"
  | .logLevel => "--log_level"
  | .version => "--version"

/-- Whether an option takes a value. -/
def Switch.takesValue : Switch → Bool
  | .help | .sort | .noSort | .version => false
  | _ => true

/-- Why a command line is refused. -/
inductive Fault where
  | ambiguous (word : String) (candidates : List String)
  | noValue (switch : Switch)
  | ignoredValue (switch : Switch) (value : String)
  | notTogether (switch other : Switch)
  | invalidReal (switch : Switch) (value : String)
  | invalidInteger (switch : Switch) (value : String)
  | unrecognized (words : List String)
  | noInput
  | loneSlope
  deriving DecidableEq, Repr

/-- What is said about a refused command line. -/
def Fault.message : Fault → String
  | .ambiguous word candidates =>
      "ambiguous option: " ++ word ++ " could match "
        ++ String.intercalate ", " candidates
  | .noValue o => "argument " ++ o.name ++ ": expected one argument"
  | .ignoredValue o v =>
      "argument " ++ o.name ++ ": ignored explicit argument "
        ++ Text.quoted v
  | .notTogether o other =>
      "argument " ++ o.name ++ ": not allowed with argument " ++ other.name
  | .invalidReal o v =>
      "argument " ++ o.name ++ ": invalid float value: " ++ Text.quoted v
  | .invalidInteger o v =>
      "argument " ++ o.name ++ ": invalid int value: " ++ Text.quoted v
  | .unrecognized words =>
      "unrecognized arguments: " ++ String.intercalate " " words
  | .noInput => "--input is required"
  | .loneSlope => "--m0 and --m1 need to be specified together"

/-- What a word of a command line is. -/
inductive Word where
  /-- A value, or a word that belongs nowhere. -/
  | value (s : String)
  /-- Two dashes, behind which all words are values. -/
  | divider
  /-- An option, with the value behind its equals sign. -/
  | switch (o : Switch) (attached : Option String)
  /-- A word with a dash in front that names no option. -/
  | unknown (s : String)
  deriving Repr

/-- A text without the line end that it ends with, if it does. -/
def dropLineEnd (cs : List Char) : List Char :=
  if cs.getLast? = some '\n' then cs.dropLast else cs

/-- Whether a text is a negative number in digits, with at most one point and
    a digit behind it; a line end may follow. -/
def isNegativeNumber (cs : List Char) : Bool :=
  let isDigit (c : Char) := (Text.digitValue? c).isSome
  match dropLineEnd cs with
  | '-' :: cs =>
      match cs.dropWhile isDigit with
      | [] => !cs.isEmpty
      | '.' :: frac => !frac.isEmpty && frac.all isDigit
      | _ => false
  | _ => false

/-- The part of a word before its first equals sign and the part behind it,
    if it has one. -/
def splitEquals (word : String) : String × Option String :=
  let cs := word.toList
  let before := String.ofList (cs.takeWhile (· != '='))
  match cs.dropWhile (· != '=') with
  | _ :: rest => (before, some (String.ofList rest))
  | [] => (before, none)

/-- The options whose name begins as a word with two dashes does, with their
    full names and the value attached to the word. -/
def candidates (word : String) :
    List (String × Switch × Option String) :=
  let (start, attached) := splitEquals word
  (names.filter fun e => e.1.startsWith start).map fun e =>
    (e.1, e.2, attached)

/-- The word for help with letters behind its single dash: it may be repeated,
    and anything else behind it is a value that it does not take. -/
def shortHelp (behind : List Char) : Word :=
  match behind, behind.dropWhile (· == 'h') with
  | _ :: _, [] => .switch .help none
  | _, rest => .switch .help (some (String.ofList rest))

/-- What a word with a dash in front is if it names no option. -/
def strayWord (word : String) : Word :=
  if isNegativeNumber word.toList || word.toList.contains ' ' then .value word
  else .unknown word

/-- What a word with a single dash in front is. -/
def classifyShort (word : String) : Word :=
  match word.toList with
  | ['-', 'h'] => .switch .help none
  | '-' :: 'h' :: '=' :: behind => shortHelp behind
  | '-' :: 'h' :: behind => shortHelp behind
  | _ => strayWord word

/-- Tells what a word is. -/
def classify (word : String) : Except Fault Word :=
  if !word.startsWith "-" || word == "-" then .ok (.value word)
  else if !word.startsWith "--" then .ok (classifyShort word)
  else
    match names.lookup word with
    | some o => .ok (.switch o none)
    | none =>
        let (start, attached) := splitEquals word
        match attached, names.lookup start with
        | some v, some o => .ok (.switch o (some v))
        | _, _ =>
            match candidates word with
            | [(_, o, attached)] => .ok (.switch o attached)
            | [] => .ok (strayWord word)
            | many => .error (.ambiguous word (many.map Prod.fst))

/-- Tells what each word is; behind two dashes all words are values. -/
def classifyAll : List String → Except Fault (List Word)
  | [] => .ok []
  | "--" :: rest => .ok (.divider :: rest.map .value)
  | word :: rest => do
      let w ← classify word
      let ws ← classifyAll rest
      return w :: ws

/-- The level of the log if none is asked for. -/
def defaultLevel : String := "WARNING"

/-- What a command line asks for. -/
structure Request (α : Type) where
  input : Option String := none
  family : Option String := none
  m0 : Option α := none
  m1 : Option α := none
  sort : Option Bool := none
  x0 : Option α := none
  x1 : Option α := none
  npoints : Option Int := none
  output : Option String := none
  figure : Option String := none
  config : Option String := none
  logLevel : String := defaultLevel
  version : Bool := false
  help : Bool := false
  /-- The options that were given without a value. -/
  emptied : List Switch := []

namespace Request

/-- Whether an option was given, with a value or without one. -/
def isGiven {α β : Type} (r : Request α) (o : Switch) (value : Option β) :
    Bool :=
  value.isSome || r.emptied.contains o

/-- Forgets the value of an option that is given without one. -/
def empty {α : Type} (r : Request α) (o : Switch) : Request α :=
  let r := { r with emptied := o :: r.emptied }
  match o with
  | .input => { r with input := none }
  | .family => { r with family := none }
  | .m0 => { r with m0 := none }
  | .m1 => { r with m1 := none }
  | .x0 => { r with x0 := none }
  | .x1 => { r with x1 := none }
  | .npoints => { r with npoints := none }
  | .output => { r with output := none }
  | .figure => { r with figure := none }
  | .config => { r with config := none }
  | .logLevel => { r with logLevel := defaultLevel }
  | .help | .sort | .noSort | .version => r

/-- Takes up the value of an option. -/
def store (r : Request Float) (o : Switch) (v : String) :
    Except Fault (Request Float) :=
  let real (set : Float → Request Float) : Except Fault (Request Float) :=
    match Numeral.looseNumeral? v.toList with
    | some n => .ok (set (Double.ofNumeral n))
    | none => .error (.invalidReal o v)
  let r := { r with emptied := r.emptied.filter (· != o) }
  match o with
  | .input => .ok { r with input := some v }
  | .family => .ok { r with family := some v }
  | .m0 => real fun x => { r with m0 := some x }
  | .m1 => real fun x => { r with m1 := some x }
  | .x0 => real fun x => { r with x0 := some x }
  | .x1 => real fun x => { r with x1 := some x }
  | .npoints =>
      match Numeral.looseInteger? v.toList with
      | some n => .ok { r with npoints := some n }
      | none => .error (.invalidInteger o v)
  | .output => .ok { r with output := some v }
  | .figure => .ok { r with figure := some v }
  | .config => .ok { r with config := some v }
  | .logLevel => .ok { r with logLevel := v }
  | .help | .sort | .noSort | .version => .error (.ignoredValue o v)

/-- Takes up the value behind the equals sign of an option. -/
def storeAttached (r : Request Float) (o : Switch) (v : String) :
    Except Fault (Request Float) :=
  if v = "--" ∧ o.takesValue = true then .ok (r.empty o) else r.store o v

/-- Takes up an option without a value. -/
def mark (r : Request Float) (o : Switch) : Except Fault (Request Float) :=
  match o with
  | .help => .ok { r with help := true }
  | .version => .ok { r with version := true }
  | .sort =>
      if r.sort = some false then .error (.notTogether .sort .noSort)
      else .ok { r with sort := some true }
  | .noSort =>
      if r.sort = some true then .error (.notTogether .noSort .sort)
      else .ok { r with sort := some false }
  | o => .error (.noValue o)

/-- Takes up words from the left, and collects those that belong nowhere.
    Help ends the command line. -/
def takeUp (r : Request Float) :
    List Word → Except Fault (Request Float × List String)
  | [] => .ok (r, [])
  | .value s :: ws => (r.takeUp ws).map fun (r, rest) => (r, s :: rest)
  | .unknown s :: ws => (r.takeUp ws).map fun (r, rest) => (r, s :: rest)
  | .divider :: ws => (r.takeUp ws).map fun (r, rest) => (r, "--" :: rest)
  | .switch o (some v) :: ws =>
      match r.storeAttached o v with
      | .error fault => .error fault
      | .ok r => r.takeUp ws
  | .switch o none :: .value v :: ws =>
      if o.takesValue then
        match r.store o v with
        | .error fault => .error fault
        | .ok r => r.takeUp ws
      else
        match r.mark o with
        | .error fault => .error fault
        | .ok r =>
            if r.help then .ok (r, [])
            else (r.takeUp ws).map fun (r, rest) => (r, v :: rest)
  | .switch o none :: ws =>
      match r.mark o with
      | .error fault => .error fault
      | .ok r => if r.help then .ok (r, []) else r.takeUp ws

end Request

/-- What a command line asks for.  Faults of values come before words that
    belong nowhere. -/
def parse (args : List String) : Except Fault (Request Float) := do
  let words ← classifyAll args
  let (r, rest) ← Request.takeUp {} words
  if r.help || rest.isEmpty then return r
  else .error (.unrecognized rest)

/-- Tells whether a run has a file with points, and either both boundary
    slopes or none. -/
def Request.check {α : Type} (r : Request α) : Except Fault Unit :=
  if !r.isGiven .input r.input then .error .noInput
  else if r.isGiven .m0 r.m0 != r.isGiven .m1 r.m1 then .error .loneSlope
  else .ok ()

end PiecewiseCubic.CommandLine
