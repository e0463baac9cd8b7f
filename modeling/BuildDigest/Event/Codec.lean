import BuildDigest.Event.Basic
import BuildDigest.Timestamp.Reader

/-!
# Events as values

Decoding checks the kind, the timestamp, the properties and the items, in this
order, and passes the other fields through; encoding leaves out what is absent
or empty.

Main definitions.
* `Event.ofValue` — decoding, with `Event.Fault` for what is refused.
* `Event.toValue` — encoding.
-/

namespace BuildDigest

/-- What is wrong with the fields of an event of a known kind. -/
inductive Event.FieldFault
  | value (fault : BuildDigest.Fault)
  | timestamp (fault : Timestamp.Fault)
  deriving Repr

/-- Why a value is no event. -/
inductive Event.Fault
  | notObject (kind : Value.Kind)
  | unknownKind (kind : Value)
  | malformed (kind : Event.Kind) (fault : Event.FieldFault)
  deriving Repr

namespace Event

def FieldFault.message : FieldFault → String
  | .value fault => fault.message
  | .timestamp fault => fault.message

def Fault.message : Fault → String
  | .notObject kind => s!"Event must be an object, got {kind.name}"
  | .unknownKind kind => s!"Unknown event kind: {kind.literal}"
  | .malformed kind fault => s!"Malformed {kind.name} event: {fault.message}"

/-- The timestamp of an event, if one is given. -/
def timestampOfValue (v : Value) : Except FieldFault (Option Timestamp) :=
  if v.holds then
    match v with
    | .text s =>
      match Timestamp.read s with
      | .ok t => .ok (some t)
      | .error fault => .error (.timestamp fault)
    | v => .error (.value (.unusable v.kind .endsWith))
  else .ok none

/-- The properties of an event: nothing, or an object. -/
def propertiesOfValue (v : Value) : Except FieldFault (List (String × String)) :=
  if v.holds then
    match v with
    | .object fields => .ok (fields.map fun f => (f.1, f.2.written))
    | v => .error (.value (.unusable v.kind .items))
  else .ok []

def decodeItems : List Value → Except BuildDigest.Fault (List Item)
  | [] => .ok []
  | v :: rest => do
    let item ← Item.ofValue v
    let items ← decodeItems rest
    return item :: items

/-- The items of an event: nothing, or values to go through. -/
def itemsOfValue (v : Value) : Except FieldFault (List Item) :=
  if v.holds then
    match v.elements with
    | .error fault => .error (.value fault)
    | .ok vs =>
      match decodeItems vs with
      | .error fault => .error (.value fault)
      | .ok items => .ok items
  else .ok []

/-- An event of a known kind from its fields. -/
def ofFields (kind : Kind) (fields : List (String × Value)) : Except FieldFault Event := do
  let timestamp ← timestampOfValue (Value.field fields "timestamp")
  let properties ← propertiesOfValue (Value.field fields "properties")
  let items ← itemsOfValue (Value.field fields "items")
  return {
    kind, timestamp, properties, items
    message := Value.field fields "message"
    projectFile := Value.field fields "projectFile"
    targetName := Value.field fields "targetName"
    taskName := Value.field fields "taskName"
    succeeded := Value.field fields "succeeded"
    commandLine := Value.field fields "commandLine"
    code := Value.field fields "code"
    file := Value.field fields "file"
    line := Value.field fields "line"
    column := Value.field fields "column" }

def kindOfValue (v : Value) : Except Fault Kind :=
  match v with
  | .text s =>
    match Kind.ofName? s with
    | some kind => .ok kind
    | none => .error (.unknownKind v)
  | v => .error (.unknownKind v)

def ofValue : Value → Except Fault Event
  | .object fields =>
    match kindOfValue (Value.field fields "kind") with
    | .error fault => .error fault
    | .ok kind =>
      match ofFields kind fields with
      | .error fault => .error (.malformed kind fault)
      | .ok event => .ok event
  | v => .error (.notObject v.kind)

def decodeAll : List Value → Except Fault (List Event)
  | [] => .ok []
  | v :: rest => do
    let event ← ofValue v
    let events ← decodeAll rest
    return event :: events

def present (name : String) (v : Value) : List (String × Value) :=
  if isAbsent v then [] else [(name, v)]

/-- The fields of an event that are passed through, without the absent ones. -/
def plainFields (e : Event) : List (String × Value) :=
  present "message" e.message ++ present "projectFile" e.projectFile ++
    present "targetName" e.targetName ++ present "taskName" e.taskName ++
    present "succeeded" e.succeeded ++ present "commandLine" e.commandLine ++
    present "code" e.code ++ present "file" e.file ++ present "line" e.line ++
    present "column" e.column

def toValue (e : Event) : Value :=
  .object <|
    ("kind", .text e.kind.name) ::
      (match e.timestamp with
        | none => []
        | some t => [("timestamp", .text t.text)]) ++
      e.plainFields ++
      (if e.properties.isEmpty then []
        else [("properties", e.propertiesValue)]) ++
      (if e.items.isEmpty then [] else [("items", .list (e.items.map Item.toValue))])

end Event

end BuildDigest
