import BuildDigest.Item.Basic
import BuildDigest.Timestamp.Basic

/-!
# Build events

One record holds whatever a build engine reports; its kind tells which fields
are meaningful. Fields that nobody checks are values of any sort, `null` when
absent.

Main definitions.
* `Event` and `Event.Kind`.
* `Event.Textual` — the promise of a well-behaved engine about the text fields.
-/

namespace BuildDigest

/-- What an event reports. -/
inductive Event.Kind
  | buildStarted
  | buildFinished
  | projectStarted
  | projectFinished
  | targetStarted
  | targetFinished
  | taskStarted
  | taskFinished
  | message
  | warning
  | error
  | custom
  | status
  deriving DecidableEq, Repr

namespace Event.Kind

def all : List Kind :=
  [ .buildStarted, .buildFinished, .projectStarted, .projectFinished, .targetStarted,
    .targetFinished, .taskStarted, .taskFinished, .message, .warning, .error, .custom, .status ]

def name : Kind → String
  | .buildStarted => "BuildStarted"
  | .buildFinished => "BuildFinished"
  | .projectStarted => "ProjectStarted"
  | .projectFinished => "ProjectFinished"
  | .targetStarted => "TargetStarted"
  | .targetFinished => "TargetFinished"
  | .taskStarted => "TaskStarted"
  | .taskFinished => "TaskFinished"
  | .message => "Message"
  | .warning => "Warning"
  | .error => "Error"
  | .custom => "Custom"
  | .status => "Status"

def ofName? (s : String) : Option Kind :=
  all.find? fun kind => kind.name == s

theorem ofName?_name (kind : Kind) : ofName? kind.name = some kind := by
  cases kind <;> decide

end Event.Kind

/-- An event of a build engine. -/
structure Event where
  kind : Event.Kind
  timestamp : Option Timestamp := none
  message : Value := .null
  projectFile : Value := .null
  targetName : Value := .null
  taskName : Value := .null
  succeeded : Value := .null
  properties : List (String × String) := []
  items : List Item := []
  commandLine : Value := .null
  code : Value := .null
  file : Value := .null
  line : Value := .null
  column : Value := .null
  deriving Repr

namespace Event

def isAbsent : Value → Bool
  | .null => true
  | _ => false

/-- Whether a message carries the command line of a task. -/
def isCommandLine (e : Event) : Bool :=
  !isAbsent e.commandLine

/-- The properties of an event as an object. -/
def propertiesValue (e : Event) : Value :=
  .object (e.properties.map fun p => (p.1, .text p.2))

/-- The text fields that an analysis reads are texts or absent. -/
structure Textual (e : Event) : Prop where
  projectFile : e.projectFile.IsTextual
  targetName : e.targetName.IsTextual
  taskName : e.taskName.IsTextual
  commandLine : e.commandLine.IsTextual

instance (e : Event) : Decidable e.Textual :=
  decidable_of_iff (e.projectFile.IsTextual ∧ e.targetName.IsTextual ∧ e.taskName.IsTextual ∧
      e.commandLine.IsTextual)
    ⟨fun ⟨h₁, h₂, h₃, h₄⟩ => ⟨h₁, h₂, h₃, h₄⟩, fun ⟨h₁, h₂, h₃, h₄⟩ => ⟨h₁, h₂, h₃, h₄⟩⟩

end Event

end BuildDigest
