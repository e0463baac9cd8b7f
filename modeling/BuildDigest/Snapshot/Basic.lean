import BuildDigest.CommandLine.Argument
import BuildDigest.Item.Basic
import BuildDigest.Settings

/-!
# Snapshots

What one target framework build of a project reported: its properties, its items
and the arguments of its compiler call. Properties are written over, the items of
a type are replaced as a group, and of several compiler calls the first is kept
unless a later one comes from the core target.
-/

namespace BuildDigest

/-- What one target framework build of a project reported. The project, the moniker and the
success are kept as the caller gives them. -/
structure Snapshot where
  project : Value
  moniker : Value
  /-- The file names of compilers, in lower case. -/
  compilerFiles : List String
  properties : NameMap Value := .empty
  items : NameMap (List Item) := .empty
  compilerArguments : Option (List CommandLine.Argument) := none
  succeeded : Value := .bool false
  deriving Repr

namespace Snapshot

/-- A snapshot of which nothing is reported. The file names of compilers have to be texts. -/
def start (project moniker : Value) (compilerFiles : List Value) : Except Fault Snapshot :=
  (Value.lowerAll compilerFiles).map fun compilerFiles => { project, moniker, compilerFiles }

/-- Reports properties up to the first whose name is no text. -/
def recordProperties (s : Snapshot) (properties : List (Value × Value)) :
    Snapshot × Option Fault :=
  let (properties, fault) := s.properties.recordPairs properties
  ({ s with properties }, fault)

/-- Reports properties from a value that is gone through for names and values. -/
def recordPropertiesFrom (s : Snapshot) (source : Value) : Snapshot × Option Fault :=
  let (properties, fault) := s.properties.recordFrom source
  ({ s with properties }, fault)

def recordItems (s : Snapshot) (itemType : String) (items : List Item) : Snapshot :=
  { s with items := s.items.record itemType items }

/-- Reports groups of items up to the first whose type is no text. -/
def recordGroups (s : Snapshot) : List (Value × List Item) → Except Fault Snapshot
  | [] => .ok s
  | (itemType, items) :: rest =>
    match itemType.asText .lower with
    | .error fault => .error fault
    | .ok itemType => (s.recordItems itemType items).recordGroups rest

/-- Reports a compiler call. A line that is absent or blank is no call. -/
def recordInvocation (s : Snapshot) (line : Value) (core : Bool) : Except Fault Snapshot :=
  if line.holds then
    match line.asText .strip with
    | .error fault => .error fault
    | .ok text =>
      if Text.strip text = "" ∨ (s.compilerArguments.isSome ∧ core = false) then .ok s
      else .ok { s with compilerArguments := some (CommandLine.arguments text) }
  else .ok s

/-- A line that is a text is always accepted, and kept if it counts. -/
theorem recordInvocation_text (s : Snapshot) (text : String) (core : Bool) :
    s.recordInvocation (.text text) core =
      .ok { s with
        compilerArguments :=
          if Text.strip text = "" ∨ (s.compilerArguments.isSome ∧ core = false) then
            s.compilerArguments
          else some (CommandLine.arguments text) } := by
  rw [recordInvocation]
  by_cases hText : text = ""
  · have hBlank : Text.strip text = "" := by
      rw [hText]
      decide
    rw [if_pos (Or.inl hBlank), hText]
    rfl
  · rw [Value.holds_text, if_pos (by simpa using hText), Value.asText_text]
    dsimp only
    split <;> rfl

/-- The value of a property, if it was reported. -/
def property? (s : Snapshot) (name : String) : Option Value :=
  s.properties.get? name

def itemsOf (s : Snapshot) (itemType : String) : List Item :=
  (s.items.get? itemType).getD []

/-- The arguments of the compiler call, none if there was no call. -/
def arguments (s : Snapshot) : List CommandLine.Argument :=
  s.compilerArguments.getD []

def shown (s : Snapshot) : String :=
  s!"BuildSnapshot({s.project.literal}, target_framework_moniker={s.moniker.literal})"

end Snapshot

end BuildDigest
