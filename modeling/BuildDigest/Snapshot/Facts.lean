import BuildDigest.Framework.Candidates
import BuildDigest.Guid.Basic
import BuildDigest.Path
import BuildDigest.Snapshot.Basic

/-!
# Facts of a snapshot

What callers ask a snapshot: the identifier and framework of the project, its
source files and its references. Relative paths are taken from the directory of
the project, and that from `cwd` when it is relative itself. A project that is no
text has no directory, which is a fault as soon as a path is taken from it.

Main definitions: `guid`, `targetFramework`, `sourceFiles`, `references`,
`projectReferences`, `packageReferences`, and `toValue` for all of them.
-/

namespace BuildDigest.Snapshot

/-- The value of a property, `null` when it was not reported. -/
def propertyValue (s : Snapshot) (name : String) : Value :=
  .ofOption (s.property? name)

/-- The identifier that the project declares, or else the one of its path. -/
def guid (s : Snapshot) : Except Fault Guid :=
  let declared := s.propertyValue "ProjectGuid"
  if declared.holds then
    match declared.asText .strip with
    | .error fault => .error fault
    | .ok text =>
      match Guid.read? (Text.strip text) with
      | some guid => .ok guid
      | none => Guid.ofGiven s.project
  else Guid.ofGiven s.project

/-- The short name of the framework: the declared one, or that of the declared identifier
and version. -/
def targetFramework (s : Snapshot) : Except Fault (Option String) :=
  let pair := [s.propertyValue "TargetFrameworkIdentifier",
    s.propertyValue "TargetFrameworkVersion"]
  (Framework.candidates .null (.list [s.propertyValue "TargetFramework"])
    (.list [.list pair])).map List.head?

def hostName : String :=
  "dotnet"

/-- The verb of the host in front of the file that it runs. -/
def hostVerb : String :=
  "exec"

/-- Whether a compiler call starts with the host. -/
def startsHost (program : String) : Bool :=
  Path.stem (Text.lower (Path.fileName program)) == hostName

/-- Whether a positional argument names a source file: it is not empty and its file name
is not that of a compiler. -/
def isSource (s : Snapshot) (value : String) : Bool :=
  value != "" && !s.compilerFiles.contains (Text.lower (Path.fileName value))

def positionals (arguments : List CommandLine.Argument) : List String :=
  arguments.filterMap fun a =>
    match a with
    | .positional value => some value
    | .switch _ _ => none

/-- The arguments after the program, and without the verb of the host right after it. -/
def operands : List CommandLine.Argument → List CommandLine.Argument
  | [] => []
  | program :: .positional verb :: rest =>
    if startsHost (program.value?.getD "") && Text.lower verb == hostVerb then rest
    else .positional verb :: rest
  | _ :: rest => rest

/-- The absolute paths of the source files of the compiler call. -/
def sourceFiles (cwd : String) (s : Snapshot) : Except Fault (List String) :=
  Path.resolvedAll cwd s.project ((positionals (operands s.arguments)).filter s.isSource)

def references (s : Snapshot) : List String :=
  s.arguments.filterMap fun a =>
    match a with
    | .switch name value => if name = "reference" then value else none
    | .positional _ => none

def projectReferences (cwd : String) (s : Snapshot) : Except Fault (List String) :=
  Path.resolvedAll cwd s.project ((s.itemsOf "ProjectReference").map (·.spec))

/-- The metadata of the referenced packages by name; the first item of a name counts. -/
def packageReferences (s : Snapshot) : List (String × NameMap String) :=
  ((s.itemsOf "PackageReference").foldl
    (fun (m : Ordered String (NameMap String)) item =>
      if m.contains item.spec then m else m.put item.spec item.metadata)
    .empty).entries

def directory (s : Snapshot) : Except Fault String :=
  Path.directoryOf s.project

def textList (texts : List String) : Value :=
  .list (texts.map .text)

/-- A snapshot with all its facts as a value. -/
def toValue (cwd : String) (s : Snapshot) : Except Fault Value := do
  let guid ← s.guid
  let framework ← s.targetFramework
  let sources ← s.sourceFiles cwd
  let projects ← s.projectReferences cwd
  return .object
    [ ("projectFilePath", s.project),
      ("projectGuid", .text guid.text),
      ("targetFrameworkMoniker", s.moniker),
      ("targetFramework", .ofText? framework),
      ("succeeded", s.succeeded),
      ("sourceFiles", textList sources),
      ("references", textList s.references),
      ("projectReferences", textList projects),
      ("packageReferences", .object (s.packageReferences.map fun p => (p.1, p.2.toValue))),
      ("compilerArguments", .list (s.arguments.map CommandLine.Argument.toValue)),
      ("properties", .object s.properties.entries),
      ("items", .object (s.items.entries.map fun g => (g.1, .list (g.2.map Item.toValue)))) ]

def listToValues (cwd : String) : List Snapshot → Except Fault (List Value)
  | [] => .ok []
  | s :: rest => do
    let v ← s.toValue cwd
    let vs ← listToValues cwd rest
    return v :: vs

end BuildDigest.Snapshot
