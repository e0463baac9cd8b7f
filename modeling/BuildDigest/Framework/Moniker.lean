import BuildDigest.Framework.ShortName
import BuildDigest.Text.Pattern

/-!
# Framework monikers

A moniker writes an identifier and a version in one text:
`.NETCoreApp,Version=v6.0`, possibly with a profile after another comma. The
word `Version` is read in any case, and blanks are allowed around every part.

Main definitions.
* `monikerPattern` — what a moniker looks like.
* `shortNameOf` — the short name of a moniker, `shortNameOfGiven` — of one that may be any value.
-/

namespace BuildDigest.Framework

open Text (Pattern)

/-- Whether a character is a letter of the word `Version` in some case. The long s and the
two letters i with unusual dots count as s and i. -/
def sameLetter (letter c : Char) : Bool :=
  c == letter || c.toNat + 32 == letter.toNat || (letter == 's' && c == '\u017f') ||
    (letter == 'i' && (c == '\u0130' || c == '\u0131'))

def versionWord : List Char :=
  "version".toList

/-- A word in any case. -/
def wordPattern (letters : List Char) : Pattern :=
  .all (letters.map fun letter => .one (sameLetter letter))

def blanksPattern : Pattern :=
  .most Text.isBlank

def commaPattern : Pattern :=
  .one (· == ',')

/-- A text without commas, remembered without most of the blanks around it. -/
def piecePattern (name : String) : Pattern :=
  .all [blanksPattern, .group name (.fewestOfOne (· != ',')), blanksPattern]

/-- What follows the version: nothing, or a profile on the same line. -/
def tailPattern : Pattern :=
  .both (.optional (.both commaPattern (.most (· != '\n')))) .finish

/-- What a moniker looks like. -/
def monikerPattern : Pattern :=
  .all
    [ piecePattern "identifier", commaPattern, blanksPattern, wordPattern versionWord,
      blanksPattern, .one (· == '='), piecePattern "version", tailPattern ]

/-- The short name of a moniker; nothing for a text that is none. -/
def shortNameOf (moniker : String) : Except Fault (Option String) :=
  match monikerPattern.match? moniker with
  | none => .ok none
  | some found => (shortName (found.textOf "identifier") (found.textOf "version")).map some

/-- The short name of a moniker that a caller gives; one that is not given is the empty text. -/
def shortNameOfGiven (moniker : Value) : Except Fault (Option String) :=
  match moniker.orEmpty with
  | .text s => shortNameOf s
  | v => .error (.notMatchable v.kind)

end BuildDigest.Framework
