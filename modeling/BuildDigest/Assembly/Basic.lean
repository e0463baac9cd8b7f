import BuildDigest.Event.Basic
import BuildDigest.Path
import BuildDigest.Tree.Folders

/-!
# Assembling the tree of a build

Events arrive in the order in which the engine raised them. A started event opens
a node below the innermost open one, a finished event closes the innermost open
node; the root is opened by the first event that needs it and is never closed by
a finished event of another kind. Messages are put below the innermost open node,
properties and items of late events at the innermost open project.

Main definitions.
* `Assembly` — the tree so far and the open nodes.
* `Assembly.step` — one event.
-/

namespace BuildDigest

/-- The tree of a build so far. -/
structure Assembly where
  tree : Tree := .empty
  /-- The indices of the open nodes, the innermost first. -/
  openNodes : List Nat := []
  /-- Whether the end of the build was seen. -/
  ended : Bool := false
  deriving Repr

namespace Assembly

/-- The innermost open node. The root is opened, and made if need be, when none is. -/
def current (a : Assembly) : Assembly × Nat :=
  match a.openNodes with
  | i :: _ => (a, i)
  | [] =>
    let tree := if a.tree.size = 0 then a.tree.add .null { kind := .build, name := .text "Build" }
      else a.tree
    ({ a with tree, openNodes := [0] }, 0)

/-- Opens a node below the innermost open one. -/
def openNode (a : Assembly) (n : Node) : Assembly × Nat :=
  let (a, parent) := a.current
  let index := a.tree.size
  ({ a with tree := a.tree.add (.int parent) n, openNodes := index :: a.openNodes }, index)

/-- Puts a node below the innermost open one. -/
def addNode (a : Assembly) (n : Node) : Assembly :=
  let (a, parent) := a.current
  { a with tree := a.tree.add (.int parent) n }

def addData (a : Assembly) (index : Nat) (e : Event) : Except Fault Assembly :=
  match a.tree.setProperties (.int index) e.propertiesValue with
  | (_, some fault) => .error fault
  | (tree, none) =>
    match tree.addItems (.int index) e.items with
    | (_, some fault) => .error fault
    | (tree, none) => .ok { a with tree }

def finishNode (a : Assembly) (index : Nat) (e : Event) : Assembly :=
  { a with
    tree := a.tree.change index fun n => { n with finished := .bool true, succeeded := e.succeeded } }

/-- The end of the build: the root is finished, and no other node stays open. -/
def endBuild (a : Assembly) (e : Event) : Assembly :=
  { (a.current.1.finishNode 0 e) with openNodes := [0], ended := true }

def startProject (a : Assembly) (e : Event) : Except Fault Assembly :=
  match e.projectFile.orEmpty.asText .replace with
  | .error fault => .error fault
  | .ok file =>
    let (a, index) := a.openNode
      { kind := .project, name := .text (Path.fileName file), projectFile := .text file }
    a.addData index e

/-- The end of the innermost open node. Without an open node below the root there is
nothing to close. -/
def closeNode (a : Assembly) (e : Event) : Assembly :=
  match a.openNodes with
  | i :: j :: rest => { (a.finishNode i e) with openNodes := j :: rest }
  | _ => a

/-- A value if it is given, another one otherwise. -/
def orElse (v other : Value) : Value :=
  if v.holds then v else other

/-- A message. A command line belongs to the task that the event names, or else to the
innermost open task. -/
def addMessage (a : Assembly) (e : Event) : Except Fault Assembly :=
  if e.isCommandLine then
    let (a, index) := a.current
    match a.tree.enclosing (.int index) .task with
    | .error fault => .error fault
    | .ok task =>
      let name := orElse e.taskName ((task.map (·.name)).getD (.text ""))
      .ok (a.addNode { kind := .commandLine, name, value := e.commandLine })
  else .ok (a.addNode { kind := .message, name := .text e.kind.name, value := e.message })

/-- Properties and items that are reported late: they go to the innermost open project,
and nowhere if there is none. -/
def addLate (a : Assembly) (e : Event) : Except Fault Assembly :=
  if e.properties.isEmpty && e.items.isEmpty then .ok a
  else
    let (a, index) := a.current
    match a.tree.enclosing (.int index) .project with
    | .error fault => .error fault
    | .ok none => .ok a
    | .ok (some project) => a.addData project.index e

def step (a : Assembly) (e : Event) : Except Fault Assembly :=
  match e.kind with
  | .buildStarted => .ok a.current.1
  | .buildFinished => .ok (a.endBuild e)
  | .projectStarted => a.startProject e
  | .targetStarted => .ok (a.openNode { kind := .target, name := e.targetName.orEmpty }).1
  | .taskStarted => .ok (a.openNode { kind := .task, name := e.taskName.orEmpty }).1
  | .projectFinished | .targetFinished | .taskFinished => .ok (a.closeNode e)
  | .message | .warning | .error => a.addMessage e
  | .custom | .status => a.addLate e

/-- Events in order, up to the first that fails. -/
def steps (a : Assembly) : List Event → Except Fault Assembly
  | [] => .ok a
  | e :: rest =>
    match a.step e with
    | .error fault => .error fault
    | .ok a => a.steps rest

end Assembly

end BuildDigest
