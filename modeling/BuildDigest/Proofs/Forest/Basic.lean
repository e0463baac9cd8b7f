import BuildDigest.Proofs.Assembly.Branches
import BuildDigest.Proofs.Assembly.Run
import BuildDigest.Proofs.Folders.Reports

/-!
# Forests of a build

A build logs a forest: projects, targets and tasks, each between a started and a
finished event, with messages, reports of properties and items, and other such
parts inside, in any order. A tree is laid out as a forest below a node when the
branches of the node are the parts and messages of the forest, one for one and in
order, and each part is laid out as what is inside it.

* `Span` — the two events around a part.
* `Forest`, `Forest.events` — a forest, and the events that log it.
* `Forest.reports` — what is reported on the project around a forest.
* `Tree.LaidOut` — a tree is laid out as a forest below a node.
* `Tree.Tells` — a project tells what was reported on it.
-/

namespace BuildDigest

/-- The parts of a build that have a beginning and an end. -/
inductive Part
  | project
  | target
  | task
  deriving DecidableEq, Repr

namespace Part

def started : Part → Event.Kind
  | .project => .projectStarted
  | .target => .targetStarted
  | .task => .taskStarted

def finished : Part → Event.Kind
  | .project => .projectFinished
  | .target => .targetFinished
  | .task => .taskFinished

end Part

/-- The events around a part, a started event and the finished event that belongs to it. -/
structure Span where
  part : Part
  opening : Event
  closing : Event
  opening_kind : opening.kind = part.started
  closing_kind : closing.kind = part.finished

namespace Span

/-- The node of a part when it is started. -/
def node (s : Span) : Node :=
  match s.part with
  | .project => Assembly.projectNode s.opening.projectFile.plain
  | .target => { kind := .target, name := .text s.opening.targetName.plain }
  | .task => { kind := .task, name := .text s.opening.taskName.plain }

/-- The name of the innermost task inside a part that stands in a task of a given name. -/
def taskInside (s : Span) (task : String) : String :=
  if s.part = .task then s.opening.taskName.plain else task

end Span

namespace Event.Kind

def isMessage : Kind → Bool
  | .message | .warning | .error => true
  | _ => false

/-- Whether events of a kind report properties and items late. -/
def isData : Kind → Bool
  | .custom | .status => true
  | _ => false

end Event.Kind

/-- The node of a message inside a task of a given name. A command line is named for the task that
the event names, or else for the task around it. -/
def Event.messageNode (task : String) (e : Event) : Node :=
  if e.isCommandLine then
    { kind := .commandLine
      name := .text (if e.taskName.plain = "" then task else e.taskName.plain)
      value := e.commandLine }
  else { kind := .message, name := .text e.kind.name, value := e.message }

/-- What is logged inside a part of a build, in order. -/
inductive Forest
  | nil
  | message (e : Event) (kind : e.kind.isMessage = true) (rest : Forest)
  | data (e : Event) (kind : e.kind.isData = true) (rest : Forest)
  | block (s : Span) (inner rest : Forest)

namespace Forest

/-- The events that log a forest, depth first. -/
def events : Forest → List Event
  | nil => []
  | message e _ rest => e :: rest.events
  | data e _ rest => e :: rest.events
  | block s inner rest => s.opening :: (inner.events ++ s.closing :: rest.events)

/-- The events that report on the project around a forest: those in the forest itself and in its
targets and tasks, but not those in projects inside it. -/
def reports : Forest → List Event
  | nil => []
  | message _ _ rest => rest.reports
  | data e _ rest => e :: rest.reports
  | block s inner rest => (if s.part = .project then [] else inner.reports) ++ rest.reports

end Forest

namespace Tree

/-- A node is a message below a node, inside a task of a given name. -/
def MessageAt (t : Tree) (task : String) (p j : Nat) (e : Event) : Prop :=
  t.row j = some ((e.messageNode task).placed j (.int p))

/-- A node is a part below a node, and finished as its own finished event says. -/
def PartAt (t : Tree) (p j : Nat) (s : Span) : Prop :=
  t.row j = some (finishing s.closing.succeeded (s.node.placed j (.int p)))

/-- The branches `js` of the node `p`, which stands in a task named `task`, are laid out as a forest.
All nodes of the forest are `is`, depth first. What is reported on a project is `told` of it. -/
inductive LaidOut (t : Tree) (told : Nat → List Event → Prop) :
    String → Nat → List Nat → List Nat → Forest → Prop
  | nil {task : String} {p : Nat} : LaidOut t told task p [] [] .nil
  | message {task : String} {p j : Nat} {js is : List Nat} {e : Event}
      {kind : e.kind.isMessage = true} {rest : Forest} (here : t.MessageAt task p j e)
      (later : LaidOut t told task p js is rest) :
      LaidOut t told task p (j :: js) (j :: is) (.message e kind rest)
  | data {task : String} {p : Nat} {js is : List Nat} {e : Event} {kind : e.kind.isData = true}
      {rest : Forest} (later : LaidOut t told task p js is rest) :
      LaidOut t told task p js is (.data e kind rest)
  | block {task : String} {p j : Nat} {js is is' : List Nat} {s : Span} {inner rest : Forest}
      (here : t.PartAt p j s)
      (inside : LaidOut t told (s.taskInside task) j (t.branches j) is inner)
      (reported : s.part = .project → told j (s.opening :: inner.reports))
      (later : LaidOut t told task p js is' rest) :
      LaidOut t told task p (j :: js) (j :: (is ++ is')) (.block s inner rest)

/-- What a project tells is what events report on it: the last value of each property, in any
spelling of its name, and all items by their types. -/
structure Tells (t : Tree) (j : Nat) (es : List Event) : Prop where
  properties : t.properties (.int j) =
    .ok ((Filing.properties (es.flatMap (·.properties))).values.map fun p =>
      (.text p.1, .text p.2))
  property : ∀ q, t.property (.int j) (.text q) =
    .ok (.ofText? (Filing.lastValue (es.flatMap (·.properties)) q))
  itemGroups : t.itemGroups (.int j) =
    .ok ((Filing.items (es.flatMap (·.items))).values.map fun g => (.text g.1, g.2))

/-- A forest stays laid out when none of its nodes changes. -/
theorem LaidOut.transport {t t' : Tree} {told told' : Nat → List Event → Prop} {task : String}
    {p : Nat} {js is : List Nat} {f : Forest} (h : t.LaidOut told task p js is f)
    (hRow : ∀ i ∈ is, t'.row i = t.row i) (hBranches : ∀ i ∈ is, t'.branches i = t.branches i)
    (hTold : ∀ i ∈ is, ∀ es, told i es → told' i es) : t'.LaidOut told' task p js is f := by
  induction h with
  | nil => exact .nil
  | message here _ ih =>
    rw [List.forall_mem_cons] at hRow hBranches hTold
    refine .message ?_ (ih hRow.2 hBranches.2 hTold.2)
    rw [MessageAt, hRow.1]
    exact here
  | data _ ih => exact .data (ih hRow hBranches hTold)
  | block here _ reported _ ihInside ihLater =>
    rw [List.forall_mem_cons, List.forall_mem_append] at hRow hBranches hTold
    refine .block ?_ ?_ ?_ (ihLater hRow.2.2 hBranches.2.2 hTold.2.2)
    · rw [PartAt, hRow.1]
      exact here
    · rw [hBranches.1]
      exact ihInside hRow.2.1 hBranches.2.1 hTold.2.1
    · intro hPart
      exact hTold.1 _ (reported hPart)

end Tree

end BuildDigest
