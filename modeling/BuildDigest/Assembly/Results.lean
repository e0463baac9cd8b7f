import BuildDigest.Assembly.Basic
import BuildDigest.Snapshot.Basic
import BuildDigest.Tree.Basic

/-!
# Snapshots of an assembled build

Every finished build of the project that reports a framework moniker feeds the
snapshot of that moniker; builds are taken in pre-order, and snapshots are listed
in the order in which their monikers were met. A build is credited with the
compiler calls below it that are not inside the build of another project.

Main definitions.
* `Gathering` — what is asked for: a project and the settings.
* `Gathering.visit` — one build of a project.
* `Assembly.snapshots` — the snapshots of an assembled build.
-/

namespace BuildDigest

/-- What is gathered from a tree: the builds of a project, under some settings. Relative
paths of projects are taken from `cwd`. -/
structure Gathering where
  cwd : String
  /-- The normalized path of the project. -/
  project : String
  settings : Settings
  deriving Repr

/-- The property with the moniker of a build. -/
def monikerProperty : String :=
  "TargetFrameworkMoniker"

namespace Gathering

/-- Whether a node is a build of the project. -/
def isWanted (g : Gathering) (n : Node) : Bool :=
  match n.projectFile with
  | .text file => file != "" && Path.normalize g.cwd file == g.project
  | _ => false

/-- The command lines of compiler tasks among nodes. -/
def compilerLines (g : Gathering) : List Node → Except Fault (List Node)
  | [] => .ok []
  | n :: rest =>
    if n.kind = .commandLine then do
      let isCompiler ← g.settings.isCompilerTask n.name
      let lines ← g.compilerLines rest
      return if isCompiler then n :: lines else lines
    else g.compilerLines rest

/-- The compiler calls of a build, without those of projects inside it. -/
def invocations (g : Gathering) (t : Tree) (project : Node) : Except Fault (List Node) :=
  g.compilerLines (t.below (·.kind = .project) project)

/-- Whether a target of the core name comes before the project on the way up; `fault` is where
the way up ends. -/
def meetsCore (core : String) (project : Nat) (fault : Option Fault) :
    List Node → Except Fault Bool
  | [] =>
    match fault with
    | some fault => .error fault
    | none => .ok false
  | n :: rest =>
    if n.index = project then .ok false
    else if n.kind = .target then
      match n.name.asText .lower with
      | .error fault => .error fault
      | .ok name =>
        if Text.lower name = core then .ok true else meetsCore core project fault rest
    else meetsCore core project fault rest

/-- Whether a command line was logged inside the core target of a build. -/
def isCore (g : Gathering) (t : Tree) (project line : Node) : Except Fault Bool :=
  match g.settings.coreName with
  | .error fault => .error fault
  | .ok core =>
    let (above, fault) := t.above line
    meetsCore core project.index fault above

def reportInvocations (g : Gathering) (t : Tree) (project : Node) :
    Snapshot → List Node → Except Fault Snapshot
  | s, [] => .ok s
  | s, line :: rest => do
    let core ← g.isCore t project line
    let s ← s.recordInvocation line.value core
    g.reportInvocations t project s rest

/-- The moniker that a build reports, without blanks around it. -/
def monikerOf (t : Tree) (n : Node) : Except Fault String := do
  let v ← t.property (.int n.index) (.text monikerProperty)
  let text ← v.orEmpty.asText .strip
  return Text.strip text

/-- The snapshot that a build feeds before it does: a new one succeeded when the build did,
one that is there keeps its success only if the build has it too. -/
def credited (g : Gathering) (snapshots : Ordered String Snapshot) (moniker : String)
    (n : Node) : Except Fault Snapshot :=
  match snapshots.get? moniker with
  | some s => .ok { s with succeeded := .bool (s.succeeded.holds && n.succeeded.holds) }
  | none =>
    (Snapshot.start (.text g.project) (.text moniker) g.settings.compilerFiles).map fun s =>
      { s with succeeded := .bool n.succeeded.holds }

def feed (g : Gathering) (t : Tree) (n : Node) (s : Snapshot) : Except Fault Snapshot := do
  let properties ← t.properties (.int n.index)
  match s.recordProperties properties with
  | (_, some fault) => throw fault
  | (s, none) =>
    let groups ← t.itemGroups (.int n.index)
    let s ← s.recordGroups groups
    let lines ← g.invocations t n
    g.reportInvocations t n s lines

/-- One build of a project. Builds of other projects, builds that are not finished and
builds without a moniker report nothing. -/
def visit (g : Gathering) (t : Tree) (snapshots : Ordered String Snapshot) (n : Node) :
    Except Fault (Ordered String Snapshot) :=
  if g.isWanted n && n.finished.holds then do
    let moniker ← monikerOf t n
    if moniker = "" then return snapshots
    let s ← g.credited snapshots moniker n
    let s ← g.feed t n s
    return snapshots.put moniker s
  else .ok snapshots

def visitAll (g : Gathering) (t : Tree) :
    Ordered String Snapshot → List Node → Except Fault (Ordered String Snapshot)
  | snapshots, [] => .ok snapshots
  | snapshots, n :: rest =>
    match g.visit t snapshots n with
    | .error fault => .error fault
    | .ok snapshots => g.visitAll t snapshots rest

end Gathering

/-- The snapshots of an assembled build, one for each moniker. -/
def Assembly.snapshots (a : Assembly) (g : Gathering) : Except Fault (List Snapshot) :=
  (g.visitAll a.tree .empty (a.tree.visit .project)).map (·.values)

end BuildDigest
