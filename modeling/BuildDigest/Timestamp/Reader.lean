import BuildDigest.Timestamp.Basic

/-!
# Reading timestamps

The accepted forms are those of ISO 8601 that have no more than one reading: a
calendar date or a week date, extended or compact, then nothing, or any one
character and a time of day, then nothing, or a sign and an offset written like
a time of day. A final `Z` or `z` is read as the offset `+00:00`.

The reader is lenient at three places. The fraction may follow the hour or the
minute. After the seconds a colon, or nothing at all, may stand for the point.
One ASCII character, or any text after six decimals, may stand between a time of
day and its offset. The character NUL ends a time of day.

Main definition: `Timestamp.read`.
-/

namespace BuildDigest.Timestamp

def isDigit (c : Char) : Bool :=
  '0' ≤ c && c ≤ '9'

/-- The number written by ASCII digits after those already read. -/
def digitsFrom (acc : Nat) : List Char → Nat
  | [] => acc
  | c :: rest => digitsFrom (acc * 10 + (c.toNat - 0x30)) rest

/-- A number of a fixed count of digits, and what follows. -/
def digits? (count : Nat) (cs : List Char) : Option (Nat × List Char) :=
  let run := cs.take count
  if run.length = count ∧ run.all isDigit then some (digitsFrom 0 run, cs.drop count) else none

-- ---------------------------------------------------------------------------
-- Dates
-- ---------------------------------------------------------------------------

/-- The count of characters of the date at the start of a text. The fifth character tells
the form; where a week date may be followed by a day or by a separator, the reading that
leaves an even count of digits to the time of day is taken. -/
def dateLength (cs : List Char) : Nat :=
  if cs.length = 7 then 7
  else if cs[4]? = some '-' then
    if cs[5]? = some 'W' then
      if cs[8]? = some '-' ∧ ((cs[10]?).any isDigit) = false then 10 else 8
    else 10
  else if cs[4]? = some 'W' then
    let run := ((cs.drop 7).takeWhile isDigit).length
    if run < 2 then 7 + run else if run % 2 = 1 then 7 else 8
  else 8

/-- The day of a date after its month or week, a number of a fixed count of digits. -/
def day? (count : Nat) (extended : Bool) (cs : List Char) : Option Nat :=
  let day := match extended, cs with
    | true, '-' :: rest => digits? count rest
    | true, _ => none
    | false, rest => digits? count rest
  match day with
  | some (d, []) => some d
  | _ => none

/-- The day of a week date after its week, the first day when it is left out. -/
def weekDay? (extended : Bool) (cs : List Char) : Option Nat :=
  if cs = [] then some 1 else day? 1 extended cs

def date? (cs : List Char) : Option Calendar.Date :=
  match digits? 4 cs with
  | none => none
  | some (year, rest) =>
    let (extended, rest) := match rest with
      | '-' :: rest => (true, rest)
      | rest => (false, rest)
    match rest with
    | 'W' :: rest =>
      match digits? 2 rest with
      | none => none
      | some (week, rest) => (weekDay? extended rest).bind (Calendar.ofWeek? year week)
    | rest =>
      match digits? 2 rest with
      | none => none
      | some (month, rest) => (day? 2 extended rest).map fun day => ⟨year, month, day⟩

-- ---------------------------------------------------------------------------
-- Times of day
-- ---------------------------------------------------------------------------

/-- A time of day as written, and whether nothing but it was there. -/
structure Clock where
  hour : Nat := 0
  minute : Nat := 0
  second : Nat := 0
  microsecond : Nat := 0
  clean : Bool := true
  deriving DecidableEq, Repr

/-- Whether a text ends where it starts: it is empty, or NUL comes first. -/
def ended : List Char → Bool
  | [] => true
  | c :: _ => c == '\x00'

/-- A time of day followed by a single character: only an ASCII one is let pass. -/
def stray? (clock : Clock) (c : Char) : Option Clock :=
  if c.toNat < 0x80 then some { clock with clean := c == '\x00' } else none

/-- The decimals after the point: up to six count, more digits are dropped. -/
def fraction? (clock : Clock) (cs : List Char) : Option Clock :=
  let count := min 6 cs.length
  match digits? count cs with
  | none => none
  | some (n, rest) =>
    some { clock with
      microsecond := n * Nat.pow 10 (6 - count)
      clean := ended (rest.dropWhile isDigit) }

def isPoint (c : Char) : Bool :=
  c == '.' || c == ','

/-- What follows the seconds: nothing, or decimals after a point or after what stands for
one. -/
def afterSecond? (colons : Bool) (clock : Clock) (cs : List Char) : Option Clock :=
  match cs with
  | [] => some clock
  | [c] => stray? clock c
  | c :: rest =>
    if isPoint c || (colons && c == ':') then fraction? clock rest
    else if colons then none
    else fraction? clock cs

def afterMinute? (colons : Bool) (clock : Clock) (cs : List Char) : Option Clock :=
  match cs with
  | [] => some clock
  | [c] => stray? clock c
  | c :: rest =>
    if isPoint c then fraction? clock rest
    else if colons && c != ':' then none
    else
      match digits? 2 (if colons then rest else cs) with
      | none => none
      | some (second, rest) => afterSecond? colons { clock with second } rest

/-- What follows the hours; a colon there is a colon after the minutes too. -/
def afterHour? (clock : Clock) (cs : List Char) : Option Clock :=
  match cs with
  | [] => some clock
  | [c] => stray? clock c
  | c :: rest =>
    if isPoint c then fraction? clock rest
    else
      match digits? 2 (if c = ':' then rest else cs) with
      | none => none
      | some (minute, rest) => afterMinute? (c == ':') { clock with minute } rest

def clock? (cs : List Char) : Option Clock :=
  match digits? 2 cs with
  | none => none
  | some (hour, rest) => afterHour? { hour } rest

-- ---------------------------------------------------------------------------
-- Offsets
-- ---------------------------------------------------------------------------

/-- Whether a character ends a time of day. -/
def startsOffset (c : Char) : Bool :=
  c == '+' || c == '-' || c == 'Z'

/-- The microseconds of an offset. Less than a second counts as nothing. -/
def offsetOf (negative : Bool) (c : Clock) : Int :=
  let seconds := c.hour * 3600 + c.minute * 60 + c.second
  if seconds = 0 then 0
  else
    let n : Int := seconds * 1000000 + c.microsecond
    if negative then -n else n

/-- The offset after a time of day; the outer `none` is a malformed one. -/
def offset? (clock : Clock) (cs : List Char) : Option (Option Int) :=
  match cs with
  | [] => if clock.clean then some none else none
  | 'Z' :: rest => if ended rest then some (some 0) else none
  | sign :: rest =>
    match clock? rest with
    | some c => if c.clean then some (some (offsetOf (sign == '-') c)) else none
    | none => none

def timeOfDay? (cs : List Char) : Option (Clock × Option Int) :=
  match clock? (cs.takeWhile fun c => !startsOffset c) with
  | none => none
  | some clock =>
    (offset? clock (cs.dropWhile fun c => !startsOffset c)).map fun offset => (clock, offset)

-- ---------------------------------------------------------------------------
-- Timestamps
-- ---------------------------------------------------------------------------

/-- The timestamp of a text, its parts not yet in range. -/
def parts? (cs : List Char) : Option Timestamp :=
  let count := dateLength cs
  match date? (cs.take count), cs.drop count with
  | none, _ => none
  | some date, [] => some ⟨date, 0, 0, 0, 0, none⟩
  | some date, _ :: rest =>
    (timeOfDay? rest).map fun (clock, offset) =>
      ⟨date, clock.hour, clock.minute, clock.second, clock.microsecond, offset⟩

/-- A final `Z` or `z` written as the offset zero. -/
def expandZulu (cs : List Char) : List Char :=
  match cs.getLast? with
  | some c => if c = 'Z' ∨ c = 'z' then cs.dropLast ++ "+00:00".toList else cs
  | none => cs

/-- The timestamp that the characters of a text write. -/
def readChars (cs : List Char) : Except Fault Timestamp :=
  let cs := expandZulu cs
  match parts? cs with
  | none => .error (.malformed (String.ofList cs))
  | some t =>
    match t.rangeFault with
    | some fault => .error fault
    | none => .ok t

def read (s : String) : Except Fault Timestamp :=
  readChars s.toList

end BuildDigest.Timestamp
