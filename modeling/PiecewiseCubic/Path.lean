import PiecewiseCubic.Text.Blank

/-! # Paths — what a name stands for among files

    A run sees some files by their names: a name is a path without dots, from
    the current directory or, with a slash in front, from the directory above
    all others.  A directory is there if there is a file in it, or if the
    current one is below it.  A path is followed component by component; it is
    made absolute without being followed. -/

namespace PiecewiseCubic

/-- Files by their names, with their contents. -/
abbrev Files := List (String × String)

namespace Path

open Text

/-- A directory: the components of the way to it, from the directory above all
    others or from the current one. -/
structure Directory where
  absolute : Bool
  names : List String
  deriving DecidableEq, Repr

/-- What a path leads to. -/
inductive Place where
  | directory (d : Directory)
  | file (name content : String)
  /-- The device that is always empty and keeps nothing. -/
  | nothing
  deriving DecidableEq, Repr

/-- Why a path leads nowhere. -/
inductive Obstacle where
  /-- There is nothing of the name that a component asks for. -/
  | missing
  /-- A component is looked up in something that is no directory. -/
  | notDirectory
  /-- A component, or the whole path, is too long for a name. -/
  | tooLong
  /-- A path with the character zero is no path. -/
  | unusable
  deriving DecidableEq, Repr

/-- The current directory. -/
def current : Directory := ⟨false, []⟩

/-- The way to the device that keeps nothing. -/
def nothingPath : String := "/dev/null"

/-- The most bytes of a component. -/
def componentLimit : Nat := 255

/-- The most bytes of a path. -/
def limit : Nat := 4095

/-- The components of a path, which are not empty. -/
def components (path : String) : List String :=
  ((splitWhere (· == '/') path.toList).filter fun part => !part.isEmpty).map
    String.ofList

/-- Whether a path begins at the directory above all others. -/
def isAbsolute (path : String) : Bool := path.toList.head? = some '/'

/-- Whether a path ends with a slash, as only that of a directory may. -/
def endsWithSlash (path : String) : Bool := path.toList.getLast? = some '/'

/-- The directory that a path begins at. -/
def start (path : String) : Directory := ⟨isAbsolute path, []⟩

namespace Directory

/-- The name of a directory. -/
def path (d : Directory) : String :=
  (if d.absolute then "/" else "") ++ String.intercalate "/" d.names

/-- The directory or file of the given name in a directory, as a directory. -/
def child (d : Directory) (name : String) : Directory :=
  { d with names := d.names ++ [name] }

/-- The directory that a directory is in. -/
def parent (d : Directory) : Directory :=
  if d.absolute then { d with names := d.names.dropLast }
  else
    match d.names.getLast? with
    | none => d.child ".."
    | some ".." => d.child ".."
    | some _ => { d with names := d.names.dropLast }

/-- The directory that a component leads to if nothing is looked up. -/
def follow (d : Directory) (name : String) : Directory :=
  if name = "." then d
  else if name = ".." then d.parent
  else d.child name

/-- Whether there is a file, or the device, below a directory. -/
def isThere (files : Files) (d : Directory) : Bool :=
  (nothingPath :: files.map Prod.fst).any fun name =>
    name.startsWith (d.path ++ "/")

end Directory

/-- What stands in a directory under a name. -/
def lookUp (files : Files) (d : Directory) (name : String) :
    Except Obstacle Place :=
  let child := d.child name
  if componentLimit < name.utf8ByteSize then .error .tooLong
  else if child.path = nothingPath then .ok .nothing
  else
    match files.lookup child.path with
    | some content => .ok (.file child.path content)
    | none =>
        if child.isThere files then .ok (.directory child) else .error .missing

/-- Goes on to a component. -/
def step (files : Files) : Place → String → Except Obstacle Place
  | .directory d, name =>
      if name = "." then .ok (.directory d)
      else if name = ".." then .ok (.directory d.parent)
      else lookUp files d name
  | _, _ => .error .notDirectory

/-- Follows components from a place. -/
def walk (files : Files) : Place → List String → Except Obstacle Place
  | place, [] => .ok place
  | place, name :: names =>
      match step files place name with
      | .error obstacle => .error obstacle
      | .ok place => walk files place names

/-- Why a path cannot even be followed. -/
def unusable? (path : String) : Option Obstacle :=
  if path.toList.contains (Char.ofNat 0) then some .unusable
  else if path.isEmpty then some .missing
  else if limit < path.utf8ByteSize then some .tooLong
  else none

/-- What a path leads to. -/
def target (files : Files) (path : String) : Except Obstacle Place :=
  match unusable? path with
  | some obstacle => .error obstacle
  | none =>
      match walk files (.directory (start path)) (components path) with
      | .error obstacle => .error obstacle
      | .ok (.directory d) => .ok (.directory d)
      | .ok place =>
          if endsWithSlash path then .error .notDirectory else .ok place

/-- Where a file that is to be written goes. -/
inductive Destination where
  /-- A file, which is made if it is not there. -/
  | file (name : String)
  /-- The device that keeps nothing. -/
  | nothing
  deriving DecidableEq, Repr

/-- Why a file cannot be written. -/
inductive Refusal where
  | obstacle (cause : Obstacle)
  /-- A directory stands in its place, or its path is that of one. -/
  | directory
  deriving DecidableEq, Repr

/-- Where a file goes whose last component is given, from the place that the
    other components lead to. -/
def destinationFrom (files : Files) (slash : Bool) (place : Place)
    (name : String) : Except Refusal Destination :=
  match place with
  | .directory d =>
      if slash then .error .directory
      else
        match step files (.directory d) name with
        | .ok (.file name _) => .ok (.file name)
        | .ok .nothing => .ok .nothing
        | .ok (.directory _) => .error .directory
        | .error .missing => .ok (.file (d.child name).path)
        | .error obstacle => .error (.obstacle obstacle)
  | _ => .error (.obstacle .notDirectory)

/-- Where a file with the given path goes. -/
def destination (files : Files) (path : String) :
    Except Refusal Destination :=
  match unusable? path with
  | some obstacle => .error (.obstacle obstacle)
  | none =>
      match (components path).reverse with
      | [] => .error .directory
      | name :: before =>
          match walk files (.directory (start path)) before.reverse with
          | .error obstacle => .error (.obstacle obstacle)
          | .ok place => destinationFrom files (endsWithSlash path) place name

/-- The directory or file that a path names if none of its components is
    looked up, as a directory. -/
def plainWay (path : String) : Directory :=
  (components path).foldl Directory.follow (start path)

/-- A path without its dots. -/
def plain (path : String) : String := (plainWay path).path

/-- The path of the directory above all others. -/
def top : String := "/"

/-- A path that is taken from a directory, unless it begins at the one above
    all others. -/
def joined (directory path : String) : String :=
  if isAbsolute path then path
  else if directory.isEmpty || endsWithSlash directory then directory ++ path
  else directory ++ "/" ++ path

/-- Whether a path begins with two slashes and no third one, which it keeps. -/
def beginsTwice (path : String) : Bool :=
  match path.toList with
  | '/' :: '/' :: rest => decide (rest.head? ≠ some '/')
  | _ => false

/-- A path without its dots and with no more slashes than it needs.  What is
    left of the way to the current directory is a dot. -/
def normal (path : String) : String :=
  if (plain path).isEmpty then "."
  else if beginsTwice path then "/" ++ plain path
  else plain path

/-- The path from the directory above all others, given the path of the
    working directory. -/
def absolute (directory path : String) : String :=
  normal (joined directory path)

/-- Whether a path stands for something below the current directory once its
    dots are taken away, even if it cannot be followed as it is. -/
def leadsSomewhere (files : Files) (path : String) : Bool :=
  let names := (plainWay path).names.filter (· != "..")
  match walk files (.directory current) names with
  | .ok _ => true
  | .error _ => false

/-- The last component of a path without dots. -/
def baseName (path : String) : String :=
  (plainWay path).names.getLast?.getD ""

/-- The ending of the last component of a path: its last dot with what is
    behind it, if something other than dots is before it. -/
def ending (path : String) : String :=
  let name := (path.toList.reverse.takeWhile (· != '/')).reverse
  let tail := (name.reverse.takeWhile (· != '.')).reverse
  let before := name.take (name.length - tail.length - 1)
  if before.any (· != '.') then String.ofList ('.' :: tail) else ""

end Path

end PiecewiseCubic
