/-! # Log records

    A record has a level and a text.  Levels are ordered by how much they
    demand attention; a reader names the least level to be shown. -/

namespace PiecewiseCubic.Log

/-- How much a record demands attention. -/
inductive Level where
  | debug
  | info
  | warning
  deriving DecidableEq, Repr

/-- One record of the log. -/
structure Record where
  level : Level
  text : String
  deriving DecidableEq, Repr

/-- The name of a level. -/
def Level.name : Level → String
  | .debug => "DEBUG"
  | .info => "INFO"
  | .warning => "WARNING"

/-- The rank of a level. -/
def Level.rank : Level → Nat
  | .debug => 10
  | .info => 20
  | .warning => 30

/-- The rank of the least level to be shown, by its name. -/
def threshold? : String → Option Nat
  | "CRITICAL" => some 50
  | "FATAL" => some 50
  | "ERROR" => some 40
  | "WARN" => some 30
  | "WARNING" => some 30
  | "INFO" => some 20
  | "DEBUG" => some 10
  | "NOTSET" => some 0
  | _ => none

end PiecewiseCubic.Log
