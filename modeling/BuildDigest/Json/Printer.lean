import BuildDigest.Text.Digit
import BuildDigest.Value.Basic

/-!
# Writing JSON

Two layouts of a value: on one line, and indented by two spaces a level. Texts
are written in ASCII, characters beyond the first plane as surrogate pairs.
Empty lists and objects are written without a break.
-/

namespace BuildDigest.Json

/-- A code as an escape of four digits. -/
def unitEscape (n : Nat) : List Char :=
  '\\' :: 'u' :: Text.hexChars 4 n

/-- One character between the quotes of a text. -/
def escapeChar (c : Char) : List Char :=
  match c with
  | '"' => ['\\', '"']
  | '\\' => ['\\', '\\']
  | '\n' => ['\\', 'n']
  | '\r' => ['\\', 'r']
  | '\t' => ['\\', 't']
  | '\x08' => ['\\', 'b']
  | '\x0c' => ['\\', 'f']
  | c =>
    let n := c.toNat
    if 0x20 ≤ n && n < 0x7f then [c]
    else if n < 0x10000 then unitEscape n
    else
      let m := n - 0x10000
      unitEscape (0xd800 + m / 0x400) ++ unitEscape (0xdc00 + m % 0x400)

def textLiteral (s : String) : String :=
  String.ofList ('"' :: s.toList.flatMap escapeChar ++ ['"'])

/-- A double, with the special values as words. -/
def numberLiteral : Double → String
  | .nan => "NaN"
  | .infinite negative => if negative then "-Infinity" else "Infinity"
  | d => d.text

/-- A line break and the blanks in front of a level, or nothing when there is no layout. -/
def break? : Option Nat → String
  | none => ""
  | some level => "\n" ++ String.ofList (List.replicate (2 * level) ' ')

def comma (layout : Option Nat) : String :=
  match layout with
  | none => ", "
  | some _ => "," ++ break? layout

/-- The entries of a list or an object between its brackets. -/
def bracketed (opening closing : String) (layout : Option Nat) (entries : List String) : String :=
  if entries.isEmpty then opening ++ closing
  else
    opening ++ break? (layout.map (· + 1)) ++ (comma (layout.map (· + 1))).intercalate entries ++
      break? layout ++ closing

mutual

/-- A value in a layout: on one line, or indented from a level on. -/
def render (layout : Option Nat) : Value → String
  | .null => "null"
  | .bool b => if b then "true" else "false"
  | .int n => toString n
  | .float d => numberLiteral d
  | .text s => textLiteral s
  | .list elements => bracketed "[" "]" layout (renderElements (layout.map (· + 1)) elements)
  | .object fields =>
    bracketed "\x7b" "\x7d" layout (renderFields (layout.map (· + 1)) fields)

def renderElements (layout : Option Nat) : List Value → List String
  | [] => []
  | v :: rest => render layout v :: renderElements layout rest

def renderFields (layout : Option Nat) : List (String × Value) → List String
  | [] => []
  | f :: rest => renderField layout f :: renderFields layout rest

def renderField (layout : Option Nat) : String × Value → String
  | (name, v) => textLiteral name ++ ": " ++ render layout v

end

def compact (v : Value) : String :=
  render none v

/-- A value with two spaces of indentation a level. -/
def indented (v : Value) : String :=
  render (some 0) v

end BuildDigest.Json
