/-!
# The calendar

Days of the Gregorian calendar, counted from the first of January of the year
one (day 1, a Monday), and the weeks of a year: the first week of a year is the
one with its first Thursday.

Main definitions.
* `dayNumber` and `ofDayNumber` — from a date to its day and back.
* `ofWeek?` — the date of a day of a week.
-/

namespace BuildDigest.Calendar

/-- A year, a month and a day of it. -/
structure Date where
  year : Nat
  month : Nat
  day : Nat
  deriving DecidableEq, Repr

def isLeap (year : Nat) : Bool :=
  year % 4 == 0 && (year % 100 != 0 || year % 400 == 0)

/-- The days of a month, none if the month does not exist. -/
def daysInMonth (year month : Nat) : Nat :=
  match month with
  | 1 | 3 | 5 | 7 | 8 | 10 | 12 => 31
  | 4 | 6 | 9 | 11 => 30
  | 2 => if isLeap year then 29 else 28
  | _ => 0

def daysBeforeYear (year : Nat) : Nat :=
  let y := year - 1
  y * 365 + y / 4 - y / 100 + y / 400

/-- The days of a year before a month. -/
def daysBeforeMonth (year : Nat) : Nat → Nat
  | 0 => 0
  | month + 1 => daysBeforeMonth year month + daysInMonth year month

def dayNumber (d : Date) : Nat :=
  daysBeforeYear d.year + daysBeforeMonth d.year d.month + d.day

/-- The month and day of a day of the year, counted from one, looking from a month on. -/
def monthFrom (year : Nat) : Nat → Nat → Nat → Nat × Nat
  | 0, month, day => (month, day)
  | fuel + 1, month, day =>
    if daysInMonth year month < day then
      monthFrom year fuel (month + 1) (day - daysInMonth year month)
    else (month, day)

def ofDayNumber (n : Nat) : Date :=
  let n := n - 1
  let (cycles, n) := (n / 146097, n % 146097)
  let centuries := min 3 (n / 36524)
  let n := n - centuries * 36524
  let (quads, n) := (n / 1461, n % 1461)
  let years := min 3 (n / 365)
  let n := n - years * 365
  let year := cycles * 400 + centuries * 100 + quads * 4 + years + 1
  let (month, day) := monthFrom year 12 1 (n + 1)
  ⟨year, month, day⟩

/-- The weekday of a day, Monday being zero. -/
def weekday (day : Nat) : Nat :=
  (day + 6) % 7

/-- The first day of the first week of a year. -/
def firstWeek (year : Nat) : Nat :=
  let first := daysBeforeYear year + 1
  let w := weekday first
  if w ≤ 3 then first - w else first + (7 - w)

def isLong (year : Nat) : Bool :=
  let w := weekday (daysBeforeYear year + 1)
  w == 3 || (w == 2 && isLeap year)

/-- The date of a day of a week, both counted from one; `none` if the year has no such
week or a week no such day. The weeks of the year zero belong to no date: month zero
stands for their days. -/
def ofWeek? (year week day : Nat) : Option Date :=
  if day = 0 ∨ 7 < day ∨ week = 0 ∨ 53 < week then none
  else if year = 0 then if week = 53 then none else some ⟨1, 0, 1⟩
  else if week = 53 ∧ isLong year = false then none
  else some (ofDayNumber (firstWeek year + (week - 1) * 7 + (day - 1)))

end BuildDigest.Calendar
