import PiecewiseCubic.Text.Digit

/-! # Moments — dates, with or without a time of day

    A moment is a day of the calendar, to which a time of day may be added,
    and to that the distance from universal time.  Only days and times that
    exist are moments. -/

namespace PiecewiseCubic

/-- A time of day to the millionth of a second. -/
structure ClockTime where
  hour : Nat
  minute : Nat
  second : Nat
  micro : Nat
  /-- The minutes by which the clock is ahead of universal time, if it is
      known. -/
  ahead : Option Int
  deriving DecidableEq, Repr

/-- A day, and a time on it if there is one. -/
structure Moment where
  year : Nat
  month : Nat
  day : Nat
  time : Option ClockTime
  deriving DecidableEq, Repr

namespace Moment

/-- Whether a year has a day more than others. -/
def isLeapYear (year : Nat) : Bool :=
  year % 4 == 0 && (year % 100 != 0 || year % 400 == 0)

/-- How many days a month has. -/
def daysInMonth (year month : Nat) : Nat :=
  if month = 2 then (if isLeapYear year then 29 else 28)
  else if [4, 6, 9, 11].contains month then 30
  else 31

/-- Whether the clock shows a time, less than a day off universal time. -/
def isClockTime (t : ClockTime) : Bool :=
  t.hour < 24 && t.minute < 60 && t.second < 60
    && t.ahead.all fun m => m.natAbs < 24 * 60

/-- Whether there is such a day and such a time. -/
def exists? (m : Moment) : Bool :=
  1 ≤ m.year && 1 ≤ m.month && m.month ≤ 12 && 1 ≤ m.day
    && m.day ≤ daysInMonth m.year m.month && m.time.all isClockTime

/-- A number filled up with zeros in front. -/
def padded (width n : Nat) : String :=
  let ds := Text.digitsOf n
  String.ofList (List.replicate (width - ds.length) '0' ++ ds)

/-- The distance from universal time in hours and minutes. -/
def aheadText (minutes : Int) : String :=
  (if minutes < 0 then "-" else "+") ++ padded 2 (minutes.natAbs / 60) ++ ":"
    ++ padded 2 (minutes.natAbs % 60)

/-- The text of a time of day. -/
def clockText (t : ClockTime) : String :=
  padded 2 t.hour ++ ":" ++ padded 2 t.minute ++ ":" ++ padded 2 t.second
    ++ (if t.micro = 0 then "" else "." ++ padded 6 t.micro)
    ++ (t.ahead.map aheadText).getD ""

/-- The text of a moment. -/
def plain (m : Moment) : String :=
  padded 4 m.year ++ "-" ++ padded 2 m.month ++ "-" ++ padded 2 m.day
    ++ (m.time.map fun t => " " ++ clockText t).getD ""

/-- The distance from universal time as a value shows it. -/
def shownAhead (minutes : Int) : String :=
  if minutes = 0 then "datetime.timezone.utc"
  else
    let seconds := minutes * 60
    let parts :=
      if 0 ≤ seconds then ["seconds=" ++ toString seconds]
      else ["days=-1", "seconds=" ++ toString (seconds + 86400)]
    "datetime.timezone(datetime.timedelta("
      ++ String.intercalate ", " parts ++ "))"

/-- The numbers of a time of day, of which zeros at the end are left out
    behind the minute. -/
def clockNumbers (t : ClockTime) : List Nat :=
  if t.micro ≠ 0 then [t.hour, t.minute, t.second, t.micro]
  else if t.second ≠ 0 then [t.hour, t.minute, t.second]
  else [t.hour, t.minute]

/-- The text of a moment as a value shows it. -/
def shown (m : Moment) : String :=
  let day := [m.year, m.month, m.day]
  match m.time with
  | none =>
      "datetime.date(" ++ String.intercalate ", " (day.map toString) ++ ")"
  | some t =>
      let numbers := (day ++ clockNumbers t).map toString
      let zone := (t.ahead.map fun a => "tzinfo=" ++ shownAhead a).toList
      "datetime.datetime(" ++ String.intercalate ", " (numbers ++ zone) ++ ")"

end Moment

end PiecewiseCubic
