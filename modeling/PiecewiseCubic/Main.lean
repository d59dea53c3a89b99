import PiecewiseCubic.Tool

/-! # The command line of the tool

    Reads the files that a run may need, and writes what it reports. -/

namespace PiecewiseCubic.Tool

/-- The content of a file that can be read. -/
def readIfThere (path : String) : IO (List (String × String)) := do
  try
    return [(Path.plain path, ← IO.FS.readFile path)]
  catch _ => return []

/-- The files that a command line names, as far as they are there. -/
def gather (args : List String) : IO Files := do
  match CommandLine.parse args with
  | .error _ => return []
  | .ok r =>
      let points ← readIfThere (r.input.getD "")
      let settings ← readIfThere (r.config.getD Settings.defaultPath)
      return points ++ settings

end PiecewiseCubic.Tool

open PiecewiseCubic

/-- Runs the tool on the files of the current directory. -/
def main (args : List String) : IO UInt32 := do
  let directory := (← IO.currentDir).toString
  let report := Tool.run (← Tool.gather args) args directory
  for line in report.output do
    IO.println line
  match report.file with
  | none => pure ()
  | some (name, lines) =>
      IO.FS.writeFile name (String.join (lines.map (· ++ "\n")))
  if let .misused _ := report.ending then
    IO.eprintln Tool.usage
  for line in Tool.messageLines report.messages do
    IO.eprintln line
  if let .failed fault := report.ending then
    IO.eprintln ("error: " ++ fault.message?.getD "")
  return report.exitCode
