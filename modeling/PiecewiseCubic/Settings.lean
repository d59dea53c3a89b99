import PiecewiseCubic.Document.Value
import PiecewiseCubic.Family
import PiecewiseCubic.Literal.Printer
import PiecewiseCubic.Log
import PiecewiseCubic.Path

/-! # Settings — defaults, a file and what overrides both

    There are four options.  Each has the value of an override if there is
    one, else that of the settings file if the file has the key, else its
    default.  Options of the file that are not known are dropped with a
    warning; unknown overrides are kept.  The settings remember the absolute
    path of the file, whatever the file and the overrides say about it. -/

namespace PiecewiseCubic

/-- Options with their values, in the order in which they were set. -/
abbrev Settings := List (String × Literal)

namespace Settings

/-- Why there are no settings. -/
inductive Fault where
  /-- The file that was asked for is not there. -/
  | noFile (path : String)
  /-- A directory stands in place of the file. -/
  | directory
  /-- The file holds something other than options. -/
  | noMapping (path : String)
  /-- The file cannot be read as a document. -/
  | malformed (cause : Document.Malformed)
  /-- The option for the family names none. -/
  | unknownFamily (given : Literal)
  /-- Settings cannot be changed. -/
  | frozen

/-- What is said about settings that do not exist. -/
def Fault.message? : Fault → Option String
  | .noFile path =>
      some ("Configuration file '" ++ path ++ "' not found.")
  | .noMapping path =>
      some ("Configuration file " ++ path
        ++ " must contain a mapping of options")
  | .directory => none
  | .malformed _ => none
  | .unknownFamily given =>
      some ("Spline type " ++ given.shown ++ " not supported")
  | .frozen => none

/-- The path that is looked at if none is asked for. -/
def defaultPath : String := "cubspline.yaml"

/-- The option that remembers the path of the file. -/
def pathKey : String := "config_file_path"

/-- The four options with their defaults. -/
def defaults : Settings :=
  [("spline_type", .text "natural"), ("sort_inputs", .bool false),
    ("extrapolate", .bool true), ("npoints", .int 100)]

/-- The value of an option. -/
def get? (s : Settings) (key : String) : Option Literal := s.lookup key

/-- The value of an option, nothing being the null literal. -/
def get (s : Settings) (key : String) : Literal := (s.get? key).getD .null

/-- Sets an option, in place if it is there and at the end if it is new. -/
def insert (key : String) (v : Literal) : Settings → Settings
  | [] => [(key, v)]
  | (k, w) :: rest =>
      if k = key then (k, v) :: rest else (k, w) :: insert key v rest

/-- An option has the value it was set to last. -/
theorem get?_insert_self (s : Settings) (key : String) (v : Literal) :
    get? (insert key v s) key = some v := by
  induction s with
  | nil => simp [insert, get?]
  | cons e rest ih =>
      obtain ⟨k, w⟩ := e
      by_cases h : k = key
      · simp [insert, get?, h]
      · have hne : (key == k) = false := by simpa using Ne.symm h
        rw [insert, if_neg h]
        show List.lookup key ((k, w) :: insert key v rest) = some v
        rw [List.lookup_cons, hne]
        exact ih

/-- Setting an option leaves the others alone. -/
theorem get?_insert_of_ne (s : Settings) {key other : String} (v : Literal)
    (ne : other ≠ key) : get? (insert key v s) other = get? s other := by
  induction s with
  | nil => simp [insert, get?, ne]
  | cons e rest ih =>
      obtain ⟨k, w⟩ := e
      by_cases h : k = key
      · subst h
        have hne : (other == k) = false := by simpa using ne
        rw [insert, if_pos rfl]
        show List.lookup other ((k, v) :: rest)
          = List.lookup other ((k, w) :: rest)
        rw [List.lookup_cons, List.lookup_cons, hne]
      · rw [insert, if_neg h]
        show List.lookup other ((k, w) :: insert key v rest)
          = List.lookup other ((k, w) :: rest)
        rw [List.lookup_cons, List.lookup_cons]
        cases other == k with
        | true => rfl
        | false => exact ih

/-- The options in a document, with what its being empty says. -/
def ofDocument (path : String) :
    Literal → List Log.Record × Except Fault (List (Literal × Literal))
  | .null =>
      ([⟨.warning, "Configuration file " ++ path
        ++ " is empty. Using default settings"⟩], .ok [])
  | .record es => ([], .ok es)
  | _ => ([], .error (.noMapping path))

/-- The options of a file, with what its being absent or empty says.  `path?`
    is the path that was asked for, and `document` what the file holds, if it
    is there. -/
def load (path? : Option String) (document : Option Literal) :
    List Log.Record × Except Fault (List (Literal × Literal)) :=
  match document, path? with
  | some document, path? => ofDocument (path?.getD defaultPath) document
  | none, some path => ([], .error (.noFile path))
  | none, none =>
      ([⟨.debug, "Configuration file " ++ defaultPath
        ++ " not found. Using defaults"⟩], .ok [])

/-- The value that a file gives to an option. -/
def fileValue? (es : List (Literal × Literal)) (key : String) :
    Option Literal :=
  (es.find? fun e => e.1 == .text key).map Prod.snd

/-- A warning for each option of a file that is not known. -/
def unknownWarnings (path : String) (es : List (Literal × Literal)) :
    List Log.Record :=
  (es.filter fun e => !defaults.any fun d => e.1 == .text d.1).map fun e =>
    ⟨.warning, "Unknown option " ++ e.1.plain ++ " in " ++ path
      ++ " is ignored"⟩

/-- The known options with the values of a file. -/
def ofFile (es : List (Literal × Literal)) : Settings :=
  defaults.map fun (k, v) => (k, (fileValue? es k).getD v)

/-- Sets one option to the value of an override, and tells so if it had
    another value before. -/
def override (s : Settings) (key : String) (v : Literal) :
    List Log.Record × Settings :=
  let records : List Log.Record :=
    match s.get? key with
    | some old =>
        if v == old then []
        else [⟨.info, "Option " ++ key ++ "=" ++ v.plain
          ++ " overrides the configured value " ++ old.plain⟩]
    | none => []
  (records, s.insert key v)

/-- Sets options to the values of overrides, one after the other. -/
def overrideAll (s : Settings) :
    List (String × Literal) → List Log.Record × Settings
  | [] => ([], s)
  | (k, v) :: rest =>
      let (records, s) := s.override k v
      let (more, s) := s.overrideAll rest
      (records ++ more, s)

/-- The settings that a document and overrides make in a working directory.
    The family is looked up when everything is merged, so only the value that
    counts must name one.  The path that is remembered begins at the directory
    above all others. -/
def resolve (directory : String) (path? : Option String)
    (document : Option Literal) (overrides : List (String × Literal)) :
    List Log.Record × Except Fault Settings :=
  let path := path?.getD defaultPath
  match load path? document with
  | (records, .error fault) => (records, .error fault)
  | (records, .ok es) =>
      let warnings := unknownWarnings path es
      let (infos, merged) := (ofFile es).overrideAll overrides
      let records := records ++ warnings ++ infos
      let family := merged.get "spline_type"
      if (Family.ofLiteral? family).isSome then
        (records,
          .ok (merged.insert pathKey (.text (Path.absolute directory path))))
      else (records, .error (.unknownFamily family))

/-- What stands at the path of a settings file. -/
inductive Source where
  | absent
  | directory
  | text (content : String)
  deriving DecidableEq, Repr

/-- What stands at a path, if anything can be found there. -/
def Source.ofPath (files : Files) (path : String) : Source :=
  match Path.target files path with
  | .ok (.file _ content) => .text content
  | .ok .nothing => .text ""
  | .ok (.directory _) => .directory
  | .error _ => .absent

/-- The document that a source holds, if it is there. -/
def Source.document? : Source → Except Fault (Option Literal)
  | .absent => .ok none
  | .directory => .error .directory
  | .text content =>
      match Document.value content with
      | .error cause => .error (.malformed cause)
      | .ok document => .ok (some document)

/-- The settings that what stands at the path of the file and overrides
    make. -/
def read (directory : String) (path? : Option String) (source : Source)
    (overrides : List (String × Literal)) :
    List Log.Record × Except Fault Settings :=
  match source.document? with
  | .error fault => ([], .error fault)
  | .ok document => resolve directory path? document overrides

/-- The settings that a file among others and overrides make.  The working
    directory is the one above all others unless another one is given. -/
def readAmong (files : Files) (path? : Option String)
    (overrides : List (String × Literal)) (directory : String := Path.top) :
    List Log.Record × Except Fault Settings :=
  read directory path? (.ofPath files (path?.getD defaultPath)) overrides

/-- An assignment to settings that were read. -/
def assign (_ : Settings) (_ : String) (_ : Literal) :
    Except Fault Settings := .error .frozen

/-- The options without the path of the file. -/
def options (s : Settings) : Settings := s.filter fun e => e.1 != pathKey

end Settings

end PiecewiseCubic
