import BuildDigest.Number.Whole
import BuildDigest.Text.Lower
import BuildDigest.Value.Basic

/-!
# Faults

What can go wrong when a value is used as something that it is not. A fault
names its cause; `Fault.message` has the wording.

Main definitions.
* `Fault` — the causes.
* `Value.asText`, `Value.elements`, `Value.asPair`, `Value.pairs` — the uses of a value that
  may fail.
-/

namespace BuildDigest

/-- The uses of a value that only one sort of values allows. -/
inductive Use
  | lower
  | upper
  | strip
  | replace
  | split
  | startsWith
  | endsWith
  | get
  | items
  deriving DecidableEq, Repr

def Use.name : Use → String
  | .lower => "lower"
  | .upper => "upper"
  | .strip => "strip"
  | .replace => "replace"
  | .split => "split"
  | .startsWith => "startswith"
  | .endsWith => "endswith"
  | .get => "get"
  | .items => "items"

/-- The cause of a failed step. -/
inductive Fault
  /-- A value was used in a way that its sort does not allow. -/
  | unusable (kind : Value.Kind) (use : Use)
  /-- A value without elements was gone through. -/
  | notIterable (kind : Value.Kind)
  /-- A value without elements was taken for a name and a value. -/
  | notUnpackable (kind : Value.Kind)
  /-- A name and a value were wanted where there were fewer elements. -/
  | tooFew (count : Nat)
  /-- A name and a value were wanted where there were more elements. -/
  | tooMany
  /-- An object lacks a name. -/
  | missing (name : Value)
  /-- A value that may change was used as a key. -/
  | notKey (kind : Value.Kind)
  /-- The pieces of a text were to be joined, and one is no text. -/
  | notPiece (position : Nat) (kind : Value.Kind)
  /-- A whole number could not be read. -/
  | whole (fault : Whole.Fault)
  /-- A position lies outside the tree. -/
  | outOfRange
  /-- A position has more than 64 binary digits. -/
  | wideIndex
  /-- A value is no position. -/
  | notIndex (kind : Value.Kind)
  /-- A name is none of the kinds of nodes. -/
  | unknownNodeKind (name : Value)
  /-- A value is no file path. -/
  | notPath (kind : Value.Kind)
  /-- A value that is no text was compared with a pattern. -/
  | notMatchable (kind : Value.Kind)
  /-- A value that is no text was to be written as octets. -/
  | notEncodable
  /-- A variable of a process was to hold a value that is no text. -/
  | notVariable (kind : Value.Kind)
  deriving Repr

def Fault.message : Fault → String
  | .unusable kind use => s!"'{kind.name}' object has no attribute '{use.name}'"
  | .notIterable kind => s!"'{kind.name}' object is not iterable"
  | .notUnpackable kind => s!"cannot unpack non-iterable {kind.name} object"
  | .tooFew count => s!"not enough values to unpack (expected 2, got {count})"
  | .tooMany => "too many values to unpack (expected 2)"
  | .missing name => name.literal
  | .notKey kind => s!"unhashable type: '{kind.name}'"
  | .notPiece position kind =>
    s!"sequence item {position}: expected str instance, {kind.name} found"
  | .whole fault => fault.message
  | .outOfRange => "list index out of range"
  | .wideIndex => "cannot fit 'int' into an index-sized integer"
  | .notIndex kind => s!"list indices must be integers or slices, not {kind.name}"
  | .unknownNodeKind name => s!"{name.literal} is not a valid NodeKind"
  | .notPath kind => s!"expected str, bytes or os.PathLike object, not {kind.name}"
  | .notMatchable kind => s!"expected string or bytes-like object, got '{kind.name}'"
  | .notEncodable => "encoding without a string argument"
  | .notVariable kind => s!"str expected, not {kind.name}"

namespace Value

/-- A text, or the fault that a use of another value is. -/
def asText (use : Use) : Value → Except Fault String
  | .text s => .ok s
  | v => .error (.unusable v.kind use)

/-- The elements of a value that is gone through: those of a list, the names of an
object, the characters of a text. -/
def elements : Value → Except Fault (List Value)
  | .list vs => .ok vs
  | .object fields => .ok (fields.map fun f => .text f.1)
  | .text s => .ok (s.toList.map fun c => .text (String.singleton c))
  | v => .error (.notIterable v.kind)

/-- The elements of a value that may be left out: none unless it is given. -/
def elementsIfGiven (v : Value) : Except Fault (List Value) :=
  if v.holds then v.elements else .ok []

/-- A value taken for a name and a value. -/
def asPair (v : Value) : Except Fault (Value × Value) :=
  match v.elements with
  | .error _ => .error (.notUnpackable v.kind)
  | .ok [a, b] => .ok (a, b)
  | .ok [] => .error (.tooFew 0)
  | .ok [_] => .error (.tooFew 1)
  | .ok _ => .error .tooMany

/-- The pairs up to the first element that is none. -/
def collectPairs : List Value → List (Value × Value) × Option Fault
  | [] => ([], none)
  | v :: rest =>
    match v.asPair with
    | .error fault => ([], some fault)
    | .ok pair => let (found, fault) := collectPairs rest; (pair :: found, fault)

/-- The pairs of a value that is gone through for names and values, up to the first fault. -/
def pairs (v : Value) : List (Value × Value) × Option Fault :=
  match v with
  | .object fields => (fields.map fun f => (.text f.1, f.2), none)
  | v =>
    match v.elements with
    | .error fault => ([], some fault)
    | .ok vs => collectPairs vs

/-- Texts in lower case, which all values of a list have to be. -/
def lowerAll : List Value → Except Fault (List String)
  | [] => .ok []
  | v :: rest =>
    match v.asText .lower with
    | .error fault => .error fault
    | .ok s => (lowerAll rest).map (Text.lower s :: ·)

@[simp] theorem asText_text (use : Use) (s : String) : asText use (.text s) = .ok s := rfl

@[simp] theorem elements_list (vs : List Value) : elements (.list vs) = .ok vs := rfl

@[simp] theorem lowerAll_map_text (names : List String) :
    lowerAll (names.map .text) = .ok (names.map Text.lower) := by
  induction names with
  | nil => rfl
  | cons name rest ih => simp [lowerAll, ih, Except.map]

end Value

end BuildDigest
