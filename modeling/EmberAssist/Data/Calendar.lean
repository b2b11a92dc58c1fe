/-! Days and moments of the calendar, as documents write them. -/
namespace EmberAssist.Data

/-- A day. -/
structure Day where
  year : Nat
  month : Nat
  dayOfMonth : Nat
deriving DecidableEq, Repr

/-- A moment of a day: the time to a millionth of a second and, if it is known, by how many minutes
the clock is ahead of universal time. -/
structure Moment where
  day : Day
  hour : Nat
  minute : Nat
  second : Nat
  micro : Nat
  ahead : Option Int
deriving DecidableEq, Repr

/-- What can be wrong with a day or a moment. -/
inductive CalendarFault where
  | year (n : Nat)
  | month
  | dayOfMonth
  | hour
  | minute
  | second
  | ahead (minutes : Int)
deriving DecidableEq, Repr

/-- A difference of time in days and seconds; the seconds are never negative. -/
def durationText (minutes : Int) : String :=
  let days := (minutes * 60) / 86400
  let seconds := (minutes * 60) % 86400
  let parts :=
    (if days = 0 then [] else ["days=" ++ toString days]) ++
      (if seconds = 0 then [] else ["seconds=" ++ toString seconds])
  "datetime.timedelta(" ++ (if parts.isEmpty then "0" else ", ".intercalate parts) ++ ")"

/-- The wording of a fault. -/
def CalendarFault.message : CalendarFault → String
  | year n => "year " ++ toString n ++ " is out of range"
  | month => "month must be in 1..12"
  | dayOfMonth => "day is out of range for month"
  | hour => "hour must be in 0..23"
  | minute => "minute must be in 0..59"
  | second => "second must be in 0..59"
  | ahead minutes =>
    "offset must be a timedelta strictly between -timedelta(hours=24) and timedelta(hours=24), not " ++
      durationText minutes ++ "."

/-- Every fourth year is a leap year, but of the hundreds only every fourth. -/
def isLeapYear (year : Nat) : Bool := year % 4 == 0 && (year % 100 != 0 || year % 400 == 0)

/-- How many days a month has. -/
def daysInMonth (year month : Nat) : Nat :=
  if month == 2 then (if isLeapYear year then 29 else 28)
  else if [4, 6, 9, 11].contains month then 30
  else 31

/-- Checks that a day is in the calendar, from the year 1 to the year 9999. -/
def Day.check (day : Day) : Except CalendarFault Unit := do
  if day.year < 1 || 9999 < day.year then throw (.year day.year)
  if day.month < 1 || 12 < day.month then throw .month
  if day.dayOfMonth < 1 || daysInMonth day.year day.month < day.dayOfMonth then throw .dayOfMonth

/-- Checks that a moment is in the calendar. The clock must be ahead or behind by less than a day. -/
def Moment.check (moment : Moment) : Except CalendarFault Unit := do
  if let some minutes := moment.ahead then
    if 1440 ≤ minutes.natAbs then throw (.ahead minutes)
  moment.day.check
  if 23 < moment.hour then throw .hour
  if 59 < moment.minute then throw .minute
  if 59 < moment.second then throw .second

/-- A number with at least so many digits. -/
def paddedText (width n : Nat) : String :=
  let digits := Nat.toDigits 10 n
  String.ofList (List.replicate (width - digits.length) '0' ++ digits)

/-- A day as year, month and day. -/
def Day.text (day : Day) : String :=
  paddedText 4 day.year ++ "-" ++ paddedText 2 day.month ++ "-" ++ paddedText 2 day.dayOfMonth

/-- By how much a clock is ahead, as hours and minutes with a sign. -/
def aheadText (minutes : Int) : String :=
  (if minutes < 0 then "-" else "+") ++ paddedText 2 (minutes.natAbs / 60) ++ ":" ++
    paddedText 2 (minutes.natAbs % 60)

/-- A moment as day, time and, if it is known, by how much the clock is ahead. Parts of a second are
written when there are any. -/
def Moment.text (moment : Moment) : String :=
  moment.day.text ++ " " ++ paddedText 2 moment.hour ++ ":" ++ paddedText 2 moment.minute ++ ":" ++
    paddedText 2 moment.second ++
    (if moment.micro = 0 then "" else "." ++ paddedText 6 moment.micro) ++
    (moment.ahead.map aheadText).getD ""

/-- A day inside another value. -/
def Day.innerText (day : Day) : String :=
  "datetime.date(" ++ ", ".intercalate ([day.year, day.month, day.dayOfMonth].map toString) ++ ")"

/-- By how much a clock is ahead, inside another value. -/
def aheadInnerText (minutes : Int) : String :=
  if minutes = 0 then "datetime.timezone.utc"
  else "datetime.timezone(" ++ durationText minutes ++ ")"

/-- A moment inside another value. Seconds are left out when they and their parts are zero. -/
def Moment.innerText (moment : Moment) : String :=
  let day := moment.day
  let seconds :=
    if moment.micro ≠ 0 then [moment.second, moment.micro]
    else if moment.second ≠ 0 then [moment.second]
    else []
  let fields := [day.year, day.month, day.dayOfMonth, moment.hour, moment.minute] ++ seconds
  let zone := (moment.ahead.map fun minutes => ["tzinfo=" ++ aheadInnerText minutes]).getD []
  "datetime.datetime(" ++ ", ".intercalate (fields.map toString ++ zone) ++ ")"

/-- How many days lie between a fixed day and the first of March of a year. -/
def daysToMarch (year : Nat) : Nat := 365 * year + year / 4 - year / 100 + year / 400

/-- How many days lie between a fixed day and a day. Years are counted from March on, so that the leap
day is their last. -/
def Day.number (day : Day) : Nat :=
  let (year, month) := if day.month < 3 then (day.year - 1, day.month + 9) else (day.year, day.month - 3)
  daysToMarch year + (153 * month + 2) / 5 + day.dayOfMonth

/-- How many minutes of universal time lie between a fixed moment and a moment whose clock is ahead by
so many minutes. -/
def Moment.universalMinutes (moment : Moment) (ahead : Int) : Int :=
  1440 * moment.day.number + 60 * moment.hour + moment.minute - ahead

/-- Whether two moments are the same. Moments of clocks that are known to differ from universal time are
compared there, and a moment of such a clock is never one of an unknown clock. -/
def Moment.same (a b : Moment) : Bool :=
  match a.ahead, b.ahead with
  | some x, some y =>
    a.universalMinutes x == b.universalMinutes y && a.second == b.second && a.micro == b.micro
  | none, none => a == b
  | _, _ => false

end EmberAssist.Data
