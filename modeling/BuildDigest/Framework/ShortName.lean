import BuildDigest.Fault
import BuildDigest.Text.Blank
import BuildDigest.Text.Lower

/-!
# Short framework names

A framework is declared by an identifier and a version; its short name combines
the two (`net48`, `netstandard2.0`, `net6.0`). Three schemes share the word
`net`: the classic framework drops the points of its version, the core framework
is called `net` from version 5 on, and all others keep word and version apart.

Main definition: `shortName`.
-/

namespace BuildDigest.Framework

/-- The short words of the known identifiers, which are written in lower case. -/
def knownWords : List (String × String) :=
  [ (".netframework", "net"), (".netstandard", "netstandard"), (".netcoreapp", "netcoreapp"),
    (".netportable", "portable"), ("silverlight", "sl"), ("windowsphone", "wp"),
    ("windowsphoneapp", "wpa"), (".netcore", "netcore"), ("tizen", "tizen") ]

/-- The short word of an identifier: itself in lower case unless it is a known one. -/
def word (identifier : String) : String :=
  let folded := Text.lower (Text.strip identifier)
  (knownWords.lookup folded).getD folded

/-- A version without blanks at its ends and without the letters v in front. -/
def bareVersion (version : String) : List Char :=
  (Text.stripChars version.toList).dropWhile fun c => c == 'v' || c == 'V'

/-- The first core version that is called `net`. -/
def renamedFrom : Nat := 5

/-- Whether a core version is called `net`: its first number is at least five. What is no
digit makes it a name of the old scheme; digits that form no number are a fault. -/
def isRenamed (version : List Char) : Except Fault Bool :=
  let major := version.takeWhile (· != '.')
  if major.isEmpty || !major.all Text.isDigit then .ok false
  else
    match Whole.read (String.ofList major) with
    | .ok n => .ok (renamedFrom ≤ n)
    | .error fault => .error (.whole fault)

/-- The short name of a word and a version. -/
def named (word : String) (version : List Char) : Except Fault String :=
  if word = "net" then .ok (word ++ String.ofList (version.filter (· != '.')))
  else if word = "netcoreapp" then
    match isRenamed version with
    | .error fault => .error fault
    | .ok true => .ok ("net" ++ String.ofList version)
    | .ok false => .ok (word ++ String.ofList version)
  else .ok (word ++ String.ofList version)

/-- The short name of a framework identifier and a version. -/
def shortName (identifier version : String) : Except Fault String :=
  named (word identifier) (bareVersion version)

end BuildDigest.Framework
