import BuildDigest.Framework.ShortName
import BuildDigest.Ordered

/-!
# Frameworks of a project

A project declares its frameworks in lists, singly, or as identifiers with
versions, and any of them may be any value. The first two are taken as they are;
identifiers and versions count only when there is nothing else.

Main definition: `candidates`.
-/

namespace BuildDigest.Framework

/-- The entries of a list written with semicolons, none unless it is given. -/
def entriesOf (v : Value) : Except Fault (List String) :=
  if v.holds then (v.asText .split).map Text.entries else .ok []

/-- The framework that a value names, none unless it is given and not blank. -/
def singleOf (v : Value) : Except Fault (List String) :=
  if v.holds then
    (v.asText .strip).map fun s => if Text.strip s = "" then [] else [Text.strip s]
  else .ok []

/-- The short name of an identifier and a version, none unless both are given and not blank. -/
def nameOf (identifier version : Value) : Except Fault (List String) :=
  if identifier.holds && version.holds then do
    let identifier ← identifier.asText .strip
    if Text.strip identifier = "" then return []
    let version ← version.asText .strip
    if Text.strip version = "" then return []
    let name ← shortName identifier version
    return [name]
  else .ok []

/-- The short name of a pair of an identifier and a version. -/
def nameOfPair (pair : Value) : Except Fault (List String) :=
  match pair.asPair with
  | .error fault => .error fault
  | .ok (identifier, version) => nameOf identifier version

/-- The names that the elements of a value give, from left to right; none unless the value is
given. -/
def gather (names : Value → Except Fault (List String)) (v : Value) :
    Except Fault (List String) :=
  match v.elementsIfGiven with
  | .error fault => .error fault
  | .ok vs => (vs.mapM names).map List.flatten

/-- A list of texts without repetitions, each at its first place. -/
def distinct (names : List String) : List String :=
  (Ordered.ofList (names.map fun name => (name, ()))).keys

/-- The short names that a project declares: the entries of its lists of frameworks, then
its single frameworks; if there are none, the names of its identifiers and versions. -/
def candidates (lists singles pairs : Value) : Except Fault (List String) := do
  let listed ← gather entriesOf lists
  let single ← gather singleOf singles
  if (listed ++ single).isEmpty then
    let named ← gather nameOfPair pairs
    return distinct named
  return distinct (listed ++ single)

end BuildDigest.Framework
