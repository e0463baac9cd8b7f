import BuildDigest.Assembly.Results
import BuildDigest.Path

/-!
# Processing a stream of events

A processor hands every event to its observers and then, unless it only observes,
to the assembly of the tree. A failing observer stops neither the others nor the
processing: its failure is noted with the delivery.

Main definitions.
* `Processor.start`, `Processor.observe` — setting up.
* `Processor.process`, `Processor.processAll` — taking events.
* `Processor.results` — the snapshots so far.
-/

namespace BuildDigest

abbrev Observer := Event → Except String Unit

/-- An event handed to an observer. -/
structure Delivery where
  observer : Nat
  event : Event
  failure : Option String
  deriving Repr

/-- The state of processing a stream. -/
structure Processor where
  gathering : Gathering
  observers : List Observer
  /-- All deliveries, the last one first. -/
  delivered : List Delivery
  /-- The tree so far; none if the processor only observes. -/
  assembly : Option Assembly

namespace Processor

/-- A processor for a normalized project before the first event. -/
def idle (cwd project : String) (settings : Settings) (analyze : Bool)
    (observers : List Observer) : Processor where
  gathering := { cwd, project, settings }
  observers
  delivered := []
  assembly := if analyze then some {} else none

/-- A processor for a project before the first event. -/
def start (cwd : String) (project : Value) (settings : Settings) (analyze : Bool)
    (observers : List Observer) : Except Fault Processor :=
  (Path.normalized cwd project).map fun project => idle cwd project settings analyze observers

def observe (p : Processor) (observer : Observer) : Processor :=
  { p with observers := p.observers ++ [observer] }

/-- The failure of an observer at an event. -/
def failureOf (observer : Observer) (e : Event) : Option String :=
  match observer e with
  | .ok () => none
  | .error failure => some failure

/-- The deliveries of an event to observers numbered from a number on. -/
def deliveries (e : Event) : Nat → List Observer → List Delivery
  | _, [] => []
  | n, observer :: rest => ⟨n, e, failureOf observer e⟩ :: deliveries e (n + 1) rest

def deliver (p : Processor) (e : Event) : Processor :=
  { p with delivered := (deliveries e 0 p.observers).reverse ++ p.delivered }

/-- One event. If the tree cannot take it, it is delivered and the tree stays as it was. -/
def process (p : Processor) (e : Event) : Processor × Option Fault :=
  let p := p.deliver e
  match p.assembly with
  | none => (p, none)
  | some a =>
    match a.step e with
    | .error fault => (p, some fault)
    | .ok a => ({ p with assembly := some a }, none)

/-- Events in order, up to the first fault. -/
def processAll (p : Processor) : List Event → Processor × Option Fault
  | [] => (p, none)
  | e :: rest =>
    match p.process e with
    | (p, some fault) => (p, some fault)
    | (p, none) => p.processAll rest

/-- Whether the end of the build was seen. -/
def buildEnded (p : Processor) : Bool :=
  match p.assembly with
  | none => false
  | some a => a.ended

/-- The indices of the open nodes, the outermost first. -/
def openNodes (p : Processor) : List Nat :=
  match p.assembly with
  | none => []
  | some a => a.openNodes.reverse

/-- The snapshots so far, none if the processor only observes. -/
def results (p : Processor) : Except Fault (List Snapshot) :=
  match p.assembly with
  | none => .ok []
  | some a => a.snapshots p.gathering

end Processor

end BuildDigest
