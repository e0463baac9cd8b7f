import BuildDigest.Assembly.Results
import BuildDigest.Proofs.Folders.Reports

/-!
# Ledgers

What the events of a build come to, kept without a tree. The parts of the build
that are open stand on a stack of frames. Each project that is started opens an
entry, in order, and what is reported is written into the entry of the innermost
open project: properties, items and command lines.

* `Ledger` — the entries so far and the open frames.
* `Ledger.step`, `Ledger.run` — one event, and events in order.
* `Ledger.snapshots` — the snapshots of the entries of a project.
-/

namespace BuildDigest

/-- The text of a text field; an absent one is empty. -/
def Value.plain : Value → String
  | .text s => s
  | _ => ""

namespace Ledger

/-- A part of the build that is open; a project is known by the number of its entry. -/
inductive Frame
  | project (entry : Nat)
  | target (name : String)
  | task (name : String)
  deriving DecidableEq, Repr

namespace Frame

def entry? : Frame → Option Nat
  | .project k => some k
  | .target _ | .task _ => none

def targetName? : Frame → Option String
  | .target name => some name
  | .project _ | .task _ => none

def taskName? : Frame → Option String
  | .task name => some name
  | .project _ | .target _ => none

end Frame

/-- The entry of the innermost open project. -/
def innermost (frames : List Frame) : Option Nat :=
  frames.findSome? Frame.entry?

/-- The name of the innermost open task, empty if there is none. -/
def openTask (frames : List Frame) : String :=
  (frames.findSome? Frame.taskName?).getD ""

/-- The names of the targets that are open inside the innermost open project. -/
def openTargets (frames : List Frame) : List String :=
  (frames.takeWhile fun frame => frame.entry?.isNone).filterMap Frame.targetName?

/-- A command line, with its task and the targets around it. -/
structure Call where
  text : String
  task : String
  targets : List String
  deriving DecidableEq, Repr

/-- What was reported on one build of a project, and how it finished. -/
structure Entry where
  file : String
  properties : List (String × String) := []
  items : List Item := []
  calls : List Call := []
  outcome : Option Bool := none
  deriving Repr

namespace Entry

def ofEvent (e : Event) : Entry :=
  { file := e.projectFile.plain, properties := e.properties, items := e.items }

def addData (b : Entry) (e : Event) : Entry :=
  { b with properties := b.properties ++ e.properties, items := b.items ++ e.items }

def addCall (b : Entry) (c : Call) : Entry :=
  { b with calls := b.calls ++ [c] }

def finish (b : Entry) (succeeded : Bool) : Entry :=
  { b with outcome := some succeeded }

end Entry

/-- The command line of a message, raised inside open frames. -/
def callOf (frames : List Frame) (e : Event) : Call where
  text := e.commandLine.plain
  task := if e.taskName.plain = "" then openTask frames else e.taskName.plain
  targets := openTargets frames

end Ledger

/-- The builds of projects so far, and what is open, innermost first. -/
structure Ledger where
  entries : List Ledger.Entry := []
  frames : List Ledger.Frame := []
  deriving Repr

namespace Ledger

/-- A ledger with the entry of the innermost open project changed. -/
def amend (l : Ledger) (f : Entry → Entry) : Ledger :=
  match innermost l.frames with
  | some k => { l with entries := l.entries.modify k f }
  | none => l

def enter (l : Ledger) (frame : Frame) : Ledger :=
  { l with frames := frame :: l.frames }

/-- A ledger with the innermost frame closed. -/
def leave (l : Ledger) (succeeded : Bool) : Ledger :=
  match l.frames with
  | [] => l
  | frame :: rest =>
    match frame.entry? with
    | some k => { entries := l.entries.modify k (·.finish succeeded), frames := rest }
    | none => { l with frames := rest }

/-- One event. -/
def step (l : Ledger) (e : Event) : Ledger :=
  match e.kind with
  | .buildStarted => l
  -- what is open now never finishes
  | .buildFinished => { l with frames := [] }
  | .projectStarted =>
    { entries := l.entries ++ [.ofEvent e], frames := .project l.entries.length :: l.frames }
  | .targetStarted => l.enter (.target e.targetName.plain)
  | .taskStarted => l.enter (.task e.taskName.plain)
  -- what an event says it finishes is not compared with what is open
  | .projectFinished | .targetFinished | .taskFinished => l.leave e.succeeded.holds
  | .message | .warning | .error =>
    if e.isCommandLine then l.amend (·.addCall (callOf l.frames e)) else l
  | .custom | .status => l.amend (·.addData e)

def run (l : Ledger) (events : List Event) : Ledger :=
  events.foldl step l

-- ---------------------------------------------------------------------------
-- Changes at one place
-- ---------------------------------------------------------------------------

/-- A change among the first entries. -/
theorem modify_append_left {α : Type} {xs ys : List α} {k : Nat} (hk : k < xs.length)
    (f : α → α) : (xs ++ ys).modify k f = xs.modify k f ++ ys := by
  induction xs generalizing k with
  | nil => simp at hk
  | cons x xs ih =>
    cases k with
    | zero => rfl
    | succ k =>
      have hk : k < xs.length := by simpa using hk
      rw [List.cons_append, List.modify_succ_cons, List.modify_succ_cons, ih hk, List.cons_append]

/-- A change among the entries behind the first ones. -/
theorem modify_append_right {α : Type} (xs ys : List α) (k : Nat) (f : α → α) :
    (xs ++ ys).modify (xs.length + k) f = xs ++ ys.modify k f := by
  induction xs with
  | nil => rw [List.length_nil, Nat.zero_add, List.nil_append, List.nil_append]
  | cons x xs ih =>
    rw [List.length_cons, Nat.add_right_comm, List.cons_append, List.modify_succ_cons, ih,
      List.cons_append]

-- ---------------------------------------------------------------------------
-- Runs
-- ---------------------------------------------------------------------------

theorem run_nil (l : Ledger) : l.run [] = l := rfl

theorem run_cons (l : Ledger) (e : Event) (events : List Event) :
    l.run (e :: events) = (l.step e).run events := rfl

theorem run_append (l : Ledger) (events more : List Event) :
    l.run (events ++ more) = (l.run events).run more :=
  List.foldl_append

namespace Entry

def node (b : Entry) : Node where
  kind := .project
  projectFile := .text b.file
  finished := .bool b.outcome.isSome
  succeeded := .bool (b.outcome.getD false)

/-- The moniker that a build reports, without blanks around it. -/
def moniker (b : Entry) : String :=
  Text.strip ((Filing.lastValue b.properties monikerProperty).getD "")

end Entry

theorem amend_id (l : Ledger) : (l.amend fun b => b) = l := by
  unfold amend
  split
  · exact congrArg (Ledger.mk · l.frames) (List.modify_id _ _)
  · rfl

end Ledger

namespace Gathering

open Ledger (Call Entry)

def compilerCalls (g : Gathering) : List Call → Except Fault (List Call)
  | [] => .ok []
  | c :: rest => do
    let isCompiler ← g.settings.isCompilerTask (.text c.task)
    let calls ← g.compilerCalls rest
    return if isCompiler then c :: calls else calls

def reportCalls (g : Gathering) : Snapshot → List Call → Except Fault Snapshot
  | s, [] => .ok s
  | s, c :: rest => do
    let core ← g.settings.coreName
    let s ← s.recordInvocation (.text c.text) (c.targets.any fun name => Text.lower name = core)
    g.reportCalls s rest

/-- What an entry reports to a snapshot. -/
def feedEntry (g : Gathering) (b : Entry) (s : Snapshot) : Except Fault Snapshot :=
  match s.recordProperties
      ((Filing.properties b.properties).values.map fun p => (.text p.1, .text p.2)) with
  | (_, some fault) => throw fault
  | (s, none) => do
    let s ← s.recordGroups ((Filing.items b.items).values.map fun group => (.text group.1, group.2))
    let calls ← g.compilerCalls b.calls
    g.reportCalls s calls

/-- One entry: builds of other projects, builds that are not finished and builds without a
moniker report nothing. -/
def visitEntry (g : Gathering) (snapshots : Ordered String Snapshot) (b : Entry) :
    Except Fault (Ordered String Snapshot) :=
  if g.isWanted b.node && b.outcome.isSome then
    if b.moniker = "" then .ok snapshots
    else do
      let s ← g.credited snapshots b.moniker b.node
      let s ← g.feedEntry b s
      return snapshots.put b.moniker s
  else .ok snapshots

end Gathering

/-- The snapshots of the entries of a project, one for each moniker. -/
def Ledger.snapshots (l : Ledger) (g : Gathering) : Except Fault (List Snapshot) :=
  (l.entries.foldlM g.visitEntry .empty).map (·.values)

end BuildDigest
