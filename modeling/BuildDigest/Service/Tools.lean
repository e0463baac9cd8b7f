import BuildDigest.CommandLine.Given
import BuildDigest.EventLog.Reader
import BuildDigest.Json.Printer
import BuildDigest.Processor
import BuildDigest.Service.Store

/-!
# Tools of the service

The service answers four tools and one resource. The two analysis tools store
their results under the project and tell the session that the resource changed,
before the answer is written; what they did so far stays if the answer fails.
Arguments may be any values, as callers send them.

Main definitions.
* `Service` — settings, stored results, and how deeply logs are read.
* `Service.describeCommandLine`, `Service.analyzeEvents`, `Service.analyzeLog`,
  `Service.storedResults` — the tools.
* `Service.resultsText` — the resource.
-/

namespace BuildDigest

/-- The state of the service. -/
structure Service where
  cwd : String
  settings : Settings
  store : Store
  /-- How many lists and objects may stand inside each other in the lines of a log. -/
  depth : Nat
  deriving Repr

/-- The client of a call, as far as notifications go. -/
inductive Session
  /-- Notifications arrive. -/
  | listening
  /-- Notifications fail. -/
  | broken
  /-- There is nobody to notify. -/
  | absent
  deriving DecidableEq, Repr

/-- Why a tool fails. -/
inductive Service.Failure
  | value (fault : Fault)
  | event (fault : Event.Fault)
  | log (fault : EventLog.Fault)
  deriving Repr

/-- What a tool answers, and which resources it told the session about. -/
structure Service.Reply where
  answer : Except Service.Failure Value
  notified : List String

namespace Service

def Failure.message : Failure → String
  | .value fault => fault.message
  | .event fault => fault.message
  | .log fault => fault.message

def resultsUri : String :=
  "build://results"

/-- The type of the text of the resource. -/
def resultsType : String :=
  "application/json"

def start (cwd : String) (settings : Settings) (depth : Nat := Json.depthLimit) : Service :=
  ⟨cwd, settings, .empty, depth⟩

/-- The resources that a session hears about when the results change. -/
def notify : Session → List String
  | .listening => [resultsUri]
  | .broken => []
  | .absent => []

/-- An answer as a value: success with data, or the wording of the failure. -/
def answerValue : Except Failure Value → Value
  | .ok data => .object [("success", .bool true), ("data", data)]
  | .error failure => .object [("success", .bool false), ("error", .text failure.message)]

/-- The snapshots of a project in a list of events. -/
def analyze (cwd : String) (settings : Settings) (project : Value) (tree : Bool)
    (events : List Event) : Except Fault (List Snapshot) :=
  match Processor.start cwd project settings tree [] with
  | .error fault => .error fault
  | .ok p =>
    match p.processAll events with
    | (_, some fault) => .error fault
    | (p, none) => p.results

/-- A call that fails before anything is stored. -/
def refuse (s : Service) (failure : Failure) : Service × Reply :=
  (s, ⟨.error failure, []⟩)

/-- Stores the results of a project and answers them. -/
def publish (s : Service) (session : Session) (project : Value) (snapshots : List Snapshot) :
    Service × Reply :=
  match s.store.set s.cwd project snapshots with
  | .error fault => s.refuse (.value fault)
  | .ok store =>
    ( { s with store },
      { answer := ((Snapshot.listToValues s.cwd snapshots).map .list).mapError .value
        notified := notify session } )

def analyzeDecoded (s : Service) (session : Session) (project : Value) (tree : Bool)
    (events : List Event) : Service × Reply :=
  match analyze s.cwd s.settings project tree events with
  | .error fault => s.refuse (.value fault)
  | .ok snapshots => s.publish session project snapshots

/-- Whether a call wants a tree: as it says, or as the settings say if it does not. -/
def wantsTree (s : Service) : Value → Bool
  | .null => s.settings.buildTree.holds
  | v => v.holds

def analyzeEvents (s : Service) (session : Session) (project events tree : Value) :
    Service × Reply :=
  match events.elements with
  | .error fault => s.refuse (.value fault)
  | .ok vs =>
    match Event.decodeAll vs with
    | .error fault => s.refuse (.event fault)
    | .ok events => s.analyzeDecoded session project (s.wantsTree tree) events

def analyzeLog (s : Service) (opener : Opener) (session : Session) (project path : Value) :
    Service × Reply :=
  match EventLog.read opener path s.depth with
  | (_, some fault) => s.refuse (.log fault)
  | (events, none) => s.analyzeDecoded session project s.settings.buildTree.holds events

/-- The tool that answers stored results, of all projects or of one. -/
def storedResults (s : Service) (project : Value) : Except Failure Value :=
  (s.store.toValue s.cwd project).mapError .value

def describeCommandLine (line : Value) : Except Failure Value :=
  (CommandLine.describe line).mapError .value

/-- The text of the resource: all stored results. -/
def resultsText (s : Service) : Except Fault String :=
  (s.store.toValue s.cwd .null).map Json.indented

end Service

end BuildDigest
