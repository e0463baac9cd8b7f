import BuildDigest.NameMap

/-!
# Project items

An item is something that a project holds (a file to compile, a package it
needs) with a type, a specification and metadata. Metadata names are looked up
without case.

Main definitions.
* `Item.ofValue` — decoding, `Item.toValue` — encoding.
* `Item.agrees` — equality of items: the order of the metadata does not count.
* `NameMap.ofValue`, `NameMap.demand` — metadata of any values.
-/

namespace BuildDigest

/-- An item of a project. -/
structure Item where
  itemType : String
  spec : String
  metadata : NameMap String
  deriving Repr

namespace NameMap

/-- The map written by a value: an object, anything that counts as empty, or names and
values to go through. -/
def ofValue (source : Value) : Except Fault (NameMap Value) :=
  if source.holds then
    match (empty : NameMap Value).recordFrom source with
    | (_, some fault) => .error fault
    | (m, none) => .ok m
  else .ok empty

/-- The value under a name that has to be there. -/
def demand (m : NameMap Value) : Value → Except Fault Value
  | .text name =>
    match m.get? name with
    | some v => .ok v
    | none => .error (.missing (.text (Text.lower name)))
  | name => .error (.missing name)

def shown (m : NameMap Value) : String :=
  "ItemMetadata(" ++ (Value.object m.entries).literal ++ ")"

def toValue (m : NameMap String) : Value :=
  .object (m.entries.map fun e => (e.1, .text e.2))

/-- Whether two maps hold the same names, spelled alike, with the same values. -/
def agrees (m other : NameMap String) : Bool :=
  m.size == other.size && m.entries.all fun e => other.entries.contains e

end NameMap

namespace Item

/-- The value under a name that an object must have. -/
def demandField (fields : List (String × Value)) (name : String) : Except Fault Value :=
  match fields.lookup name with
  | some v => .ok v
  | none => .error (.missing (.text name))

/-- The metadata of an item: nothing, or an object. -/
def metadataOfValue (v : Value) : Except Fault (NameMap String) :=
  if v.holds then
    match v with
    | .object fields => .ok (.ofList (fields.map fun f => (f.1, f.2.written)))
    | v => .error (.unusable v.kind .items)
  else .ok .empty

def ofValue : Value → Except Fault Item
  | .object fields => do
    let itemType ← demandField fields "itemType"
    let spec ← demandField fields "itemSpec"
    let metadata ← metadataOfValue (Value.field fields "metadata")
    return ⟨itemType.written, spec.written, metadata⟩
  | v => .error (.unusable v.kind .get)

def toValue (item : Item) : Value :=
  .object <| [("itemType", .text item.itemType), ("itemSpec", .text item.spec)] ++
    if item.metadata.isEmpty then [] else [("metadata", item.metadata.toValue)]

/-- Whether two items are equal: type, specification and metadata agree. -/
def agrees (item other : Item) : Bool :=
  item.itemType == other.itemType && item.spec == other.spec &&
    item.metadata.agrees other.metadata

/-- What an item is filed under: equal items have equal keys. -/
def key (item : Item) : String × String :=
  (item.itemType, item.spec)

/-- A metadata value by name in any spelling. -/
def metadata? (item : Item) (name : String) : Option String :=
  item.metadata.get? name

theorem key_eq_of_agrees {item other : Item} (h : item.agrees other = true) :
    item.key = other.key := by
  simp only [agrees, Bool.and_eq_true, beq_iff_eq] at h
  simp [key, h.1.1, h.1.2]

end Item

end BuildDigest
