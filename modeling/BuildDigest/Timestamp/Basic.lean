import BuildDigest.Text.Quoted
import BuildDigest.Timestamp.Calendar

/-!
# Timestamps

A date and a time of day to the microsecond, with an offset from UTC or without
one, and the faults of reading one.
-/

namespace BuildDigest

/-- A date, a time of day and the microseconds by which it is ahead of UTC. -/
structure Timestamp where
  date : Calendar.Date
  hour : Nat
  minute : Nat
  second : Nat
  microsecond : Nat
  offset : Option Int
  deriving DecidableEq, Repr

namespace Timestamp

/-- Why a text is no timestamp. -/
inductive Fault
  /-- The text has none of the accepted forms. -/
  | malformed (text : String)
  | offset (microseconds : Int)
  | year (year : Nat)
  | month
  | day
  | hour
  | minute
  | second
  deriving DecidableEq, Repr

def dayLength : Int := 86400000000

/-- The parts of a span of time that are not zero, by name. -/
def spanParts (microseconds : Int) : List String :=
  let days := microseconds.fdiv dayLength
  let rest := microseconds.fmod dayLength
  let seconds := rest / 1000000
  let micros := rest % 1000000
  (if days = 0 then [] else [s!"days={days}"]) ++
    (if seconds = 0 then [] else [s!"seconds={seconds}"]) ++
    (if micros = 0 then [] else [s!"microseconds={micros}"])

def spanText (microseconds : Int) : String :=
  let parts := spanParts microseconds
  "datetime.timedelta(" ++ String.intercalate ", " (if parts.isEmpty then ["0"] else parts) ++ ")"

def Fault.message : Fault → String
  | .malformed text => s!"Invalid isoformat string: {Text.quoted text}"
  | .offset microseconds =>
    "offset must be a timedelta strictly between -timedelta(hours=24) and " ++
      "timedelta(hours=24), not " ++ spanText microseconds ++ "."
  | .year y => s!"year {y} is out of range"
  | .month => "month must be in 1..12"
  | .day => "day is out of range for month"
  | .hour => "hour must be in 0..23"
  | .minute => "minute must be in 0..59"
  | .second => "second must be in 0..59"

/-- The first part of the date or the time of day that is out of its range. -/
def calendarFault (t : Timestamp) : Option Fault :=
  if t.date.year = 0 ∨ 9999 < t.date.year then some (.year t.date.year)
  else if t.date.month = 0 ∨ 12 < t.date.month then some .month
  else if t.date.day = 0 ∨ Calendar.daysInMonth t.date.year t.date.month < t.date.day then
    some .day
  else if 23 < t.hour then some .hour
  else if 59 < t.minute then some .minute
  else if 59 < t.second then some .second
  else none

/-- The first part of a timestamp that is out of its range. The offset is looked at
before the date, the date before the time of day. -/
def rangeFault (t : Timestamp) : Option Fault :=
  match t.offset with
  | some offset =>
    if offset ≤ -dayLength ∨ dayLength ≤ offset then some (.offset offset) else t.calendarFault
  | none => t.calendarFault

/-- The last `width` decimal digits of a number. -/
def padded : Nat → Nat → List Char
  | 0, _ => []
  | width + 1, n => padded width (n / 10) ++ [Char.ofNat (0x30 + n % 10)]

/-- A time of day, the microseconds only when there are some, and the seconds too when
they may be left out. -/
def clockChars (hour minute second microsecond : Nat) (secondsOptional : Bool) : List Char :=
  padded 2 hour ++ ':' :: padded 2 minute ++
    (if secondsOptional && second == 0 && microsecond == 0 then []
      else ':' :: padded 2 second ++
        (if microsecond = 0 then [] else '.' :: padded 6 microsecond))

/-- An offset: a sign and a time of day. -/
def offsetChars (offset : Int) : List Char :=
  let n := offset.natAbs
  let seconds := n / 1000000
  (if offset < 0 then '-' else '+') ::
    clockChars (seconds / 3600) (seconds / 60 % 60) (seconds % 60) (n % 1000000) true

def chars (t : Timestamp) : List Char :=
  padded 4 t.date.year ++ '-' :: padded 2 t.date.month ++ '-' :: padded 2 t.date.day ++
    'T' :: clockChars t.hour t.minute t.second t.microsecond false ++
    (match t.offset with
    | none => []
    | some offset => offsetChars offset)

def text (t : Timestamp) : String :=
  String.ofList t.chars

end Timestamp

end BuildDigest
