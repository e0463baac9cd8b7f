import BuildDigest.Number.Whole
import BuildDigest.Ordered
import BuildDigest.Text.Digit
import BuildDigest.Value.Basic

/-!
# Reading JSON

A reader for one JSON value that fills its text. It accepts the usual grammar
and the numbers `NaN`, `Infinity` and `-Infinity`; whole numbers have any size up
to the digit limit, other numbers are doubles; a repeated name keeps its first
place and takes its last value. Lists and objects stand inside each other up to a
depth, which is for the caller to say. Reading stops at the first fault from the left.

A number ends where its grammar ends, so that the rest of a text such as `01` is
what is at fault. A text is a list of Unicode scalar values, so half of a surrogate
pair is no character of any text: where one is escaped by itself, the replacement
character is read in its place.
-/

namespace BuildDigest.Json

/-- Why a text is no JSON value. -/
inductive Fault
  | expectingValue
  | expectingName
  | expectingColon
  | expectingComma
  | extraData
  | unterminatedText
  | controlCharacter
  | badEscape
  | badCodeEscape
  | byteOrderMark
  /-- A whole number with more digits than are read. -/
  | longWhole (digits : Nat)
  /-- A list or an object inside more of them than are read. -/
  | tooDeep (isObject : Bool)
  deriving DecidableEq, Repr

def Fault.message : Fault → String
  | .expectingValue => "Expecting value"
  | .expectingName => "Expecting property name enclosed in double quotes"
  | .expectingColon => "Expecting ':' delimiter"
  | .expectingComma => "Expecting ',' delimiter"
  | .extraData => "Extra data"
  | .unterminatedText => "Unterminated string starting at"
  | .controlCharacter => "Invalid control character at"
  | .badEscape => "Invalid \\escape"
  | .badCodeEscape => "Invalid \\uXXXX escape"
  | .byteOrderMark => "Unexpected UTF-8 BOM (decode using utf-8-sig)"
  | .longWhole digits => (Whole.Fault.tooLong digits).message
  | .tooDeep isObject =>
    let form := if isObject then "object" else "array"
    s!"maximum recursion depth exceeded while decoding a JSON {form} from a unicode string"

def isBlank (c : Char) : Bool :=
  c == ' ' || c == '\t' || c == '\n' || c == '\r'

def skip (cs : List Char) : List Char :=
  cs.dropWhile isBlank

def isDigit (c : Char) : Bool :=
  '0' ≤ c && c ≤ '9'

/-- The number written by ASCII digits after those already read. -/
def digitsFrom (acc : Nat) : List Char → Nat
  | [] => acc
  | c :: rest => digitsFrom (acc * 10 + (c.toNat - 0x30)) rest

/-- A run of four hexadecimal digits, and what follows. -/
def code? : List Char → Option (Nat × List Char)
  | a :: b :: c :: d :: rest => do
    let a ← Text.hexValue? a
    let b ← Text.hexValue? b
    let c ← Text.hexValue? c
    let d ← Text.hexValue? d
    return (((a * 16 + b) * 16 + c) * 16 + d, rest)
  | _ => none

def letterEscape? : Char → Option Char
  | '"' => some '"'
  | '\\' => some '\\'
  | '/' => some '/'
  | 'b' => some '\x08'
  | 'f' => some '\x0c'
  | 'n' => some '\n'
  | 'r' => some '\r'
  | 't' => some '\t'
  | _ => none

/-- Whether a code is the first half of a surrogate pair. -/
def isHighHalf (n : Nat) : Bool :=
  0xd800 ≤ n && n < 0xdc00

/-- Whether a code is the second half of a surrogate pair. -/
def isLowHalf (n : Nat) : Bool :=
  0xdc00 ≤ n && n < 0xe000

/-- The character of a code. The halves of surrogate pairs have none. -/
def codeChar (n : Nat) : Char :=
  if isHighHalf n || isLowHalf n then '\ufffd' else Char.ofNat n

/-- A code escape after its letter: the character, which may take a second escape, and
what follows. At least one more character has to follow the digits. -/
def codeEscape (cs : List Char) : Except Fault (Char × List Char) :=
  match code? cs with
  | none => .error .badCodeEscape
  | some (_, []) => .error .badCodeEscape
  | some (n, rest) =>
    match isHighHalf n, rest with
    | true, '\\' :: 'u' :: more =>
      if more.length ≤ 4 then .ok (codeChar n, rest)
      else
        match code? more with
        | none => .error .badCodeEscape
        | some (low, after) =>
          if isLowHalf low then
            .ok (Char.ofNat (0x10000 + (n - 0xd800) * 0x400 + (low - 0xdc00)), after)
          else .ok (codeChar n, rest)
    | _, _ => .ok (codeChar n, rest)

/-- The rest of a text after its opening quote, with the characters so far in reverse. The
first argument bounds the steps. -/
def textFrom : Nat → List Char → List Char → Except Fault (String × List Char)
  | 0, _, _ => .error .unterminatedText
  | _, _, [] => .error .unterminatedText
  | fuel + 1, before, c :: rest =>
    if c = '"' then .ok (String.ofList before.reverse, rest)
    else if c = '\\' then
      match rest with
      | [] => .error .unterminatedText
      | 'u' :: digits =>
        match codeEscape digits with
        | .error fault => .error fault
        | .ok (c, rest) => textFrom fuel (c :: before) rest
      | e :: rest =>
        match letterEscape? e with
        | none => .error .badEscape
        | some c => textFrom fuel (c :: before) rest
    else if c.toNat < 0x20 then .error .controlCharacter
    else textFrom fuel (c :: before) rest

/-- The digits after the point of a number, and what follows. -/
def fraction (cs : List Char) : List Char × List Char :=
  match cs with
  | '.' :: d :: rest =>
    if isDigit d then (d :: rest.takeWhile isDigit, rest.dropWhile isDigit) else ([], cs)
  | _ => ([], cs)

/-- The exponent of a number, and what follows. -/
def exponent? (cs : List Char) : Option Int × List Char :=
  match cs with
  | e :: rest =>
    if e = 'e' ∨ e = 'E' then
      let (negative, digits) := match rest with
        | '-' :: more => (true, more)
        | '+' :: more => (false, more)
        | more => (false, more)
      let run := digits.takeWhile isDigit
      if run.isEmpty then (none, cs)
      else
        let n : Int := digitsFrom 0 run
        (some (if negative then -n else n), digits.dropWhile isDigit)
    else (none, cs)
  | [] => (none, cs)

/-- The number with a sign and integer digits before what is left of the text. -/
def numberWith (negative : Bool) (whole : List Char) (cs : List Char) :
    Except Fault (Value × List Char) :=
  let (decimals, afterDecimals) := fraction cs
  match decimals, exponent? afterDecimals with
  | [], (none, _) =>
    if Whole.digitLimit < whole.length then .error (.longWhole whole.length)
    else
      let n : Int := digitsFrom 0 whole
      .ok (.int (if negative then -n else n), cs)
  | decimals, (exponent, rest) =>
    .ok (.float (.ofDecimal negative (digitsFrom 0 (whole ++ decimals))
      (exponent.getD 0 - decimals.length)), rest)

def readNumber (cs : List Char) : Except Fault (Value × List Char) :=
  let (negative, unsigned) := match cs with
    | '-' :: rest => (true, rest)
    | _ => (false, cs)
  match unsigned with
  | '0' :: rest => numberWith negative ['0'] rest
  | d :: rest =>
    if isDigit d then
      numberWith negative (d :: rest.takeWhile isDigit) (rest.dropWhile isDigit)
    else .error .expectingValue
  | [] => .error .expectingValue

/-- The values that are written by a word. -/
def words : List (List Char × Value) :=
  [ ("null".toList, .null), ("true".toList, .bool true), ("false".toList, .bool false),
    ("NaN".toList, .float .nan), ("Infinity".toList, .float (.infinite false)),
    ("-Infinity".toList, .float (.infinite true)) ]

/-- A value that is written by a word, and what follows. -/
def word? (cs : List Char) : Option (Value × List Char) :=
  match words.find? fun w => w.1.isPrefixOf cs with
  | some (w, v) => some (v, cs.drop w.length)
  | none => none

/-- How many lists and objects may stand inside each other unless the caller says otherwise. -/
def depthLimit : Nat := 990

mutual

/-- A value at the start of a text, and what follows. The first argument bounds the steps:
two for every character left, and one more, are enough. The second one is how many lists and
objects may still be opened. -/
def readValue : Nat → Nat → List Char → Except Fault (Value × List Char)
  | 0, _, _ => .error .expectingValue
  | fuel + 1, depth, cs =>
    match cs with
    | '"' :: rest =>
      match textFrom fuel [] rest with
      | .error fault => .error fault
      | .ok (s, rest) => .ok (.text s, rest)
    | '\x7b' :: rest =>
      match depth with
      | 0 => .error (.tooDeep true)
      | depth + 1 =>
        match skip rest with
        | '\x7d' :: rest => .ok (.object [], rest)
        | rest =>
          match readFields fuel depth rest with
          | .error fault => .error fault
          | .ok (fields, rest) => .ok (.object (Ordered.ofList fields).entries, rest)
    | '[' :: rest =>
      match depth with
      | 0 => .error (.tooDeep false)
      | depth + 1 =>
        match skip rest with
        | ']' :: rest => .ok (.list [], rest)
        | rest =>
          match readElements fuel depth rest with
          | .error fault => .error fault
          | .ok (elements, rest) => .ok (.list elements, rest)
    | cs =>
      match word? cs with
      | some found => .ok found
      | none => readNumber cs

/-- The fields of an object up to its closing brace. -/
def readFields : Nat → Nat → List Char → Except Fault (List (String × Value) × List Char)
  | 0, _, _ => .error .expectingValue
  | fuel + 1, depth, cs =>
    match cs with
    | '"' :: rest =>
      match textFrom fuel [] rest with
      | .error fault => .error fault
      | .ok (name, rest) =>
        match skip rest with
        | ':' :: rest =>
          match readValue fuel depth (skip rest) with
          | .error fault => .error fault
          | .ok (v, rest) =>
            match skip rest with
            | '\x7d' :: rest => .ok ([(name, v)], rest)
            | ',' :: rest =>
              match readFields fuel depth (skip rest) with
              | .error fault => .error fault
              | .ok (fields, rest) => .ok ((name, v) :: fields, rest)
            | _ => .error .expectingComma
        | _ => .error .expectingColon
    | _ => .error .expectingName

/-- The elements of a list up to its closing bracket. -/
def readElements : Nat → Nat → List Char → Except Fault (List Value × List Char)
  | 0, _, _ => .error .expectingValue
  | fuel + 1, depth, cs =>
    match readValue fuel depth cs with
    | .error fault => .error fault
    | .ok (v, rest) =>
      match skip rest with
      | ']' :: rest => .ok ([v], rest)
      | ',' :: rest =>
        match readElements fuel depth (skip rest) with
        | .error fault => .error fault
        | .ok (elements, rest) => .ok (v :: elements, rest)
      | _ => .error .expectingComma

end

/-- The value that fills a text. -/
def readChars (depth : Nat) (cs : List Char) : Except Fault Value :=
  match cs with
  | '\ufeff' :: _ => .error .byteOrderMark
  | cs =>
    match readValue (2 * cs.length + 2) depth (skip cs) with
    | .error fault => .error fault
    | .ok (v, rest) => if (skip rest).isEmpty then .ok v else .error .extraData

def read (s : String) (depth : Nat := depthLimit) : Except Fault Value :=
  readChars depth s.toList

end BuildDigest.Json
