import BuildDigest.Tree.Basic
import BuildDigest.Value.Key

/-!
# Folders of a build tree

A node keeps its properties as nodes in a folder `Properties`, one for each name
without case, and its items in a folder `Items`, which has a folder for each
type without case. Folders are made when something is put into them, and what a
report put into the tree before a fault stays there.

Main definitions.
* `setProperties`, `property`, `properties` — writing and reading properties.
* `addItems`, `itemGroups` — writing and reading items.
-/

namespace BuildDigest.Tree

/-- The folder of the properties of a node. -/
def propertiesFolder : String :=
  "Properties"

/-- The folder of the items of a node. -/
def itemsFolder : String :=
  "Items"

/-- The folder of a node with a name. -/
def findFolder (t : Tree) (place : Value) (name : String) : Except Fault (Option Node) :=
  t.findChild place .folder (.text name)

/-- The folder of a node with a name, made if it is not there. -/
def ensureFolder (t : Tree) (place : Value) (name : String) : Except Fault (Tree × Nat) :=
  match t.findFolder place name with
  | .error fault => .error fault
  | .ok (some folder) => .ok (t, folder.index)
  | .ok none => .ok (t.add place { kind := .folder, name := .text name }, t.size)

-- ---------------------------------------------------------------------------
-- Properties
-- ---------------------------------------------------------------------------

/-- The names of property nodes in lower case with the indices of their nodes, in front of
those already known. -/
def propertyIndex (known : List (String × Nat)) :
    List Node → Except Fault (List (String × Nat))
  | [] => .ok known
  | n :: rest =>
    if n.kind = .nameValue then
      match n.name.asText .lower with
      | .error fault => .error fault
      | .ok name => propertyIndex ((Text.lower name, n.index) :: known) rest
    else propertyIndex known rest

/-- Writes properties into a folder: a known name takes the value, a new one gets a node. -/
def writeProperties (folder : Nat) :
    Tree → List (String × Nat) → List (String × Value) → Tree
  | t, _, [] => t
  | t, known, (name, value) :: rest =>
    match known.lookup (Text.lower name) with
    | some i => writeProperties folder (t.change i fun n => { n with value }) known rest
    | none =>
      let grown := t.add (.int folder) { kind := .nameValue, name := .text name, value }
      writeProperties folder grown ((Text.lower name, t.size) :: known) rest

/-- Writes properties of a node: nothing, or an object. -/
def setProperties (t : Tree) (place properties : Value) : Tree × Option Fault :=
  if properties.holds then
    match t.ensureFolder place propertiesFolder with
    | .error fault => (t, some fault)
    | .ok (t, folder) =>
      match propertyIndex [] (t.childrenAt folder) with
      | .error fault => (t, some fault)
      | .ok known =>
        match properties with
        | .object fields => (writeProperties folder t known fields, none)
        | v => (t, some (.unusable v.kind .items))
  else (t, none)

/-- The names and values of a node's properties; what counts as empty is the empty text. -/
def properties (t : Tree) (place : Value) : Except Fault (List (Value × Value)) :=
  match t.findFolder place propertiesFolder with
  | .error fault => .error fault
  | .ok none => .ok []
  | .ok (some folder) =>
    Value.tabulate <| ((t.childrenAt folder.index).filter (·.kind = .nameValue)).map fun n =>
      (n.name, n.value.orEmpty)

/-- The value of a node's property, `null` when there is none. -/
def property (t : Tree) (place name : Value) : Except Fault Value :=
  match t.findFolder place propertiesFolder with
  | .error fault => .error fault
  | .ok none => .ok .null
  | .ok (some folder) =>
    match t.findChild (.int folder.index) .nameValue name with
    | .error fault => .error fault
    | .ok none => .ok .null
    | .ok (some n) => .ok n.value

-- ---------------------------------------------------------------------------
-- Items
-- ---------------------------------------------------------------------------

/-- Puts items into the folders of their types below a folder, up to the first fault. -/
def fileItems (folder : Nat) : Tree → List Item → Tree × Option Fault
  | t, [] => (t, none)
  | t, item :: rest =>
    match t.ensureFolder (.int folder) item.itemType with
    | .error fault => (t, some fault)
    | .ok (t, typeFolder) =>
      fileItems folder
        (t.add (.int typeFolder) { kind := .item, name := .text item.spec, item := some item }) rest

def addItems (t : Tree) (place : Value) (items : List Item) : Tree × Option Fault :=
  if items.isEmpty then (t, none)
  else
    match t.ensureFolder place itemsFolder with
    | .error fault => (t, some fault)
    | .ok (t, folder) => fileItems folder t items

/-- The items of a node by type, under the name of the folder of the type. -/
def itemGroups (t : Tree) (place : Value) : Except Fault (List (Value × List Item)) :=
  match t.findFolder place itemsFolder with
  | .error fault => .error fault
  | .ok none => .ok []
  | .ok (some folder) =>
    Value.tabulate <| (t.childrenAt folder.index).map fun n =>
      (n.name, (t.nodesAt n.children).filterMap (·.item))

end BuildDigest.Tree
