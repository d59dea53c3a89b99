import PiecewiseCubic.Compression
import PiecewiseCubic.PointTable
import PiecewiseCubic.Scalar.Double
import PiecewiseCubic.Tabulation

/-! # The tool — from a file of points to a table of the curve

    A run reads points from a file, fits a curve to them as the settings and
    the command line say, and writes a table of the curve.  It is a function
    of the command line and the files there are, and reports all that it
    would write, up to the fault that ends it. -/

namespace PiecewiseCubic.Tool

/-- Why a run fails after its command line is accepted. -/
inductive Fault where
  /-- The level of the log has no known name. -/
  | unknownLevel
  /-- A file is not there, or cannot be made. -/
  | noFile
  /-- A directory stands where a file is needed. -/
  | directory
  /-- A file stands where a directory is needed. -/
  | notDirectory
  /-- The path of a file is too long. -/
  | longPath
  /-- The path of a file is none. -/
  | unusablePath
  /-- A file cannot be unpacked as its name asks for. -/
  | packed (cause : Compression.Refusal)
  /-- An option that was given without a value is needed. -/
  | noValue
  | settings (cause : Settings.Fault)
  | points (cause : PointTable.Fault)
  | curve (cause : PiecewiseCubic.Fault Float)

/-- What is said about a failure, if anything. -/
def Fault.message? : Fault → Option String
  | .unknownLevel => none
  | .noFile => none
  | .directory => none
  | .notDirectory => none
  | .longPath => none
  | .unusablePath => none
  | .packed _ => none
  | .noValue => none
  | .settings cause => cause.message?
  | .points cause => cause.message?
  | .curve cause => cause.message?

/-- How a run ends. -/
inductive Ending where
  | finished
  /-- The command line or the family is refused. -/
  | misused (message : String)
  | failed (fault : Fault)

/-- All that a run writes. -/
structure Report where
  /-- Lines on the standard output. -/
  output : List String
  /-- The records of the log that are shown. -/
  log : List Log.Record
  /-- A file that is written, with its lines. -/
  file : Option (String × List String)
  ending : Ending

/-- The version of the tool. -/
def version : String := "0.1.0"

/-- The name of the tool. -/
def programName : String := "cubspline_dump"

/-- How the tool is called. -/
def usage : String :=
  "usage: " ++ programName ++ " --input FILE [options]"

/-- The fault of a path that leads nowhere. -/
def Fault.ofObstacle : Path.Obstacle → Fault
  | .missing => .noFile
  | .notDirectory => .notDirectory
  | .tooLong => .longPath
  | .unusable => .unusablePath

/-- The fault of a path that nothing can be written to. -/
def Fault.ofRefusal : Path.Refusal → Fault
  | .directory => .directory
  | .obstacle cause => .ofObstacle cause

/-- The content of the file that a path leads to. -/
def content (files : Files) (path : String) : Except Fault String :=
  match Path.target files path with
  | .ok (.file _ content) => .ok content
  | .ok .nothing => .ok ""
  | .ok (.directory _) => .error .directory
  | .error obstacle => .error (.ofObstacle obstacle)

/-- Whether a path is taken for that of a file: it leads to something, or it
    would without its dots. -/
def isFound (files : Files) (path : String) : Bool :=
  match Path.target files path with
  | .ok _ => true
  | .error _ => Path.leadsSomewhere files path

/-- The content of the file with the points, unpacked if its name asks for
    it. -/
def inputText (files : Files) (path : String) : Except Fault String :=
  match (Compression.names path).find? (isFound files) with
  | none => .error .noFile
  | some name =>
      match content files name, Compression.ofPath? name with
      | .error fault, _ => .error fault
      | .ok text, none => .ok text
      | .ok text, some format =>
          match format.unpack text with
          | .ok text => .ok text
          | .error cause => .error (.packed cause)

/-- What an option overrides: its value, or an empty list if it was given
    without one. -/
def overrideBy {α : Type} (r : CommandLine.Request α)
    (o : CommandLine.Switch) (key : String) (value : Option Literal) :
    List (String × Literal) :=
  match value with
  | some v => [(key, v)]
  | none => if r.emptied.contains o then [(key, .list [])] else []

/-- The options that a command line overrides. -/
def overrides {α : Type} (r : CommandLine.Request α) : List (String × Literal) :=
  overrideBy r .family "spline_type" (r.family.map .text)
    ++ (r.sort.map fun b => ("sort_inputs", Literal.bool b)).toList
    ++ overrideBy r .npoints "npoints" (r.npoints.map .int)

/-- Writes a table to the standard output or to a file, which is made before
    the table is begun. -/
def writeTable (files : Files) (r : CommandLine.Request Float)
    (t : Table Float) (log : List Log.Record) : Report :=
  let lines := t.lines.map TableLine.text
  let ending :=
    match t.fault with
    | some fault => .failed (.curve fault)
    | none => .finished
  match r.output with
  | none =>
      if r.emptied.contains .output then ⟨[], log, none, .failed .noValue⟩
      else ⟨lines, log, none, ending⟩
  | some path =>
      match Path.destination files path with
      | .error refusal => ⟨[], log, none, .failed (.ofRefusal refusal)⟩
      | .ok place =>
          let done : List Log.Record :=
            if t.fault.isNone then [⟨.info, "Wrote " ++ path⟩] else []
          let file :=
            match place with
            | .file name => some (name, lines)
            | .nothing => none
          ⟨[], log ++ done, file, ending⟩

/-- Writes the table of a curve.  Without a value for an end of its range the
    table has no line, and no file is made if the ends are to be moved. -/
def tabulate (files : Files) (s : Settings) (r : CommandLine.Request Float)
    (c : Curve Float) (log : List Log.Record) : Report :=
  if r.emptied.contains .x0 || r.emptied.contains .x1 then
    if (s.get "extrapolate").isTruthy then
      writeTable files r ⟨[], some .wrongKind⟩ log
    else ⟨[], log, none, .failed .noValue⟩
  else writeTable files r (Tabulation.table s r c) log

/-- Fits a curve to points.  A slope without a value stands in no equation,
    which shows only when there are points enough. -/
def fit (s : Settings) (r : CommandLine.Request Float)
    (points : List (Point Float)) :
    Except Boundary.Mismatch (Noticed Float (Curve Float)) :=
  if r.emptied.contains .m0 || r.emptied.contains .m1 then
    .ok ⟨[], .error (if points.length ≤ 1 then .tooFewPoints else .unreadable)⟩
  else Tabulation.fit s r points

/-- Fits a curve to points and writes its table. -/
def processPoints (files : Files) (s : Settings)
    (r : CommandLine.Request Float) (points : List (Point Float))
    (log : List Log.Record) : Report :=
  match fit s r points with
  | .error mismatch => ⟨[], log, none, .misused mismatch.message⟩
  | .ok fitted =>
      let log := log ++ fitted.notices.map Notice.record
      match fitted.result with
      | .error fault => ⟨[], log, none, .failed (.curve fault)⟩
      | .ok c => tabulate files s r c log

/-- The points in the file of a run, and how that is called.  Without a value
    for its path there is none. -/
def points (files : Files) (r : CommandLine.Request Float) :
    Except Fault (String × List (Point Float)) :=
  match r.input with
  | none => .error (.points (.fewColumns (Literal.list []).plain))
  | some path =>
      match inputText files path with
      | .error fault => .error fault
      | .ok text =>
          match PointTable.read path text with
          | .error fault => .error (.points fault)
          | .ok ps => .ok (path, ps)

/-- Reads the points of a file, fits a curve and writes its table. -/
def process (files : Files) (s : Settings) (r : CommandLine.Request Float)
    (log : List Log.Record) : Report :=
  match points files r with
  | .error fault => ⟨[], log, none, .failed fault⟩
  | .ok (path, ps) =>
      let read : Log.Record :=
        ⟨.info, "Read " ++ toString ps.length ++ " sampling points from "
          ++ path⟩
      processPoints files s r ps (log ++ [read])

/-- A run with an accepted command line. -/
def perform (files : Files) (directory : String)
    (r : CommandLine.Request Float) : Report :=
  if r.emptied.contains .config then ⟨[], [], none, .failed .noValue⟩
  else
    match Settings.readAmong files r.config (overrides r) directory with
    | (log, .error (.unknownFamily given)) =>
        ⟨[], log, none, .misused (Boundary.Mismatch.unknown given).message⟩
    | (log, .error fault) => ⟨[], log, none, .failed (.settings fault)⟩
    | (log, .ok s) => process files s r log

/-- Leaves out the records of a report below a level. -/
def Report.above (rank : Nat) (report : Report) : Report :=
  { report with log := report.log.filter fun r => rank ≤ r.level.rank }

/-- What a run with the given files and command line writes.  The working
    directory is the one above all others unless another one is given. -/
def run (files : Files) (args : List String)
    (directory : String := Path.top) : Report :=
  match CommandLine.parse args with
  | .error fault => ⟨[], [], none, .misused fault.message⟩
  | .ok r =>
      if r.help then ⟨[usage], [], none, .finished⟩
      else if r.version then ⟨[version], [], none, .finished⟩
      else
        match r.check, Log.threshold? r.logLevel with
        | .error fault, _ => ⟨[], [], none, .misused fault.message⟩
        | .ok _, none => ⟨[], [], none, .failed .unknownLevel⟩
        | .ok _, some rank =>
            if r.emptied.contains .logLevel then
              ⟨[], [], none, .failed .noValue⟩
            else (perform files directory r).above rank

/-- The lines of a record of the log. -/
def recordText (r : Log.Record) : String :=
  r.level.name ++ ":root:" ++ r.text

/-- What a report shows beside the standard output: the log, and the fault of
    a refused command line. -/
def Report.messages (report : Report) : List String :=
  report.log.map recordText
    ++ match report.ending with
      | .misused message => [programName ++ ": error: " ++ message]
      | _ => []

/-- The lines of messages that are not empty. -/
def messageLines (messages : List String) : List String :=
  (messages.flatMap fun m =>
    (Text.splitWhere (· == '\n') m.toList).map String.ofList).filter
      fun line => !line.isEmpty

/-- The exit code of a run. -/
def Report.exitCode (report : Report) : UInt32 :=
  match report.ending with
  | .finished => 0
  | .misused _ => 2
  | .failed _ => 1

end PiecewiseCubic.Tool
