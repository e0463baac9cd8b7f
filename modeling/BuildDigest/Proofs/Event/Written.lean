import BuildDigest.Event.Codec
import BuildDigest.Proofs.NameMap
import BuildDigest.Proofs.Outcome
import BuildDigest.Proofs.Timestamp.Written

/-!
# Written events are read back

A value that is accepted as an event is written again in one form, which is
accepted as the same event.

Decoding loses what an event does not hold: unknown fields, empty properties and
items, the sort of a value that was made a text, spellings of a metadata name
but the last, and all but the instant of a timestamp. Nothing else is lost when
the event is written and read again.

* `Event.Tidy` — what decoding makes.
* `Event.tidy_of_ofValue` — an event that is decoded is tidy.
* `Event.ofValue_toValue` — a tidy event is decoded from what it is written as.
* `Event.ofValue_toValue_of_ofValue` — both together.
-/

namespace BuildDigest

-- ---------------------------------------------------------------------------
-- Items
-- ---------------------------------------------------------------------------

namespace Item

/-- Metadata that are decoded are tidy, because they are recorded one by one from nothing. -/
theorem tidy_of_metadataOfValue {v : Value} {m : NameMap String}
    (h : metadataOfValue v = .ok m) : m.Tidy := by
  unfold metadataOfValue at h
  split at h
  · split at h
    · cases h
      exact NameMap.tidy_ofList _
    · cases h
  · cases h
    exact NameMap.tidy_empty

/-- The metadata of an item that is decoded are tidy. -/
theorem tidy_of_ofValue {v : Value} {item : Item} (h : ofValue v = .ok item) :
    item.metadata.Tidy := by
  cases v with
  | object fields =>
    obtain ⟨itemType, _, h⟩ := Except.bind_eq_ok.mp h
    obtain ⟨spec, _, h⟩ := Except.bind_eq_ok.mp h
    obtain ⟨metadata, hMetadata, h⟩ := Except.bind_eq_ok.mp h
    cases h
    exact tidy_of_metadataOfValue hMetadata
  | null | bool | int | float | text | list => cases h

/-- Tidy metadata are decoded from what they are written as. -/
theorem metadataOfValue_toValue {m : NameMap String} (h : m.Tidy) :
    metadataOfValue m.toValue = .ok m := by
  cases hEmpty : m.isEmpty with
  | true =>
    rw [NameMap.eq_empty_of_isEmpty hEmpty]
    rfl
  | false =>
    have hHolds : m.toValue.holds = true := by
      simpa [NameMap.toValue, Value.holds, NameMap.isEmpty] using hEmpty
    have hEntries : (m.entries.map fun e => (e.1, Value.text e.2)).map
        (fun f => (f.1, f.2.written)) = m.entries := by
      rw [List.map_map]
      exact List.map_id _
    unfold metadataOfValue
    rw [if_pos hHolds]
    show Except.ok (NameMap.ofList _) = _
    rw [hEntries, h.ofList_entries]

/-- An item with tidy metadata is decoded from what it is written as. -/
theorem ofValue_toValue {item : Item} (h : item.metadata.Tidy) :
    ofValue item.toValue = .ok item := by
  -- metadata that is left out is read as none
  have hField : metadataOfValue (Value.field
      ([("itemType", .text item.itemType), ("itemSpec", .text item.spec)] ++
        if item.metadata.isEmpty then [] else [("metadata", item.metadata.toValue)]) "metadata") =
      .ok item.metadata := by
    cases hEmpty : item.metadata.isEmpty with
    | true =>
      rw [NameMap.eq_empty_of_isEmpty hEmpty]
      rfl
    | false => exact metadataOfValue_toValue h
  show (do
    let metadata ← metadataOfValue _
    return ⟨item.itemType, item.spec, metadata⟩) = Except.ok item
  rw [hField]
  rfl

end Item

-- ---------------------------------------------------------------------------
-- Fields
-- ---------------------------------------------------------------------------

namespace Event

/-- What decoding makes: the timestamp can be read, and the metadata of items is tidy. -/
structure Tidy (e : Event) : Prop where
  timestamp : ∀ t, e.timestamp = some t → t.Exact
  items : ∀ item ∈ e.items, item.metadata.Tidy

/-- The value of a field, unless it is left out. -/
def given (v : Value) : Option Value :=
  if isAbsent v then none else some v

theorem getD_given (v : Value) : (given v).getD .null = v := by
  cases v <;> rfl

/-- The names under which an event is written, each with its value unless it is left out. -/
def slots (e : Event) : List (String × Option Value) :=
  [ ("kind", some (.text e.kind.name)), ("timestamp", e.timestamp.map fun t => .text t.text),
    ("message", given e.message), ("projectFile", given e.projectFile),
    ("targetName", given e.targetName), ("taskName", given e.taskName),
    ("succeeded", given e.succeeded), ("commandLine", given e.commandLine),
    ("code", given e.code), ("file", given e.file), ("line", given e.line),
    ("column", given e.column),
    ("properties", if e.properties.isEmpty then none else some e.propertiesValue),
    ("items", if e.items.isEmpty then none else some (.list (e.items.map Item.toValue))) ]

def fieldsOf (slots : List (String × Option Value)) : List (String × Value) :=
  slots.flatMap fun s => s.2.toList.map fun v => (s.1, v)

theorem present_eq (name : String) (v : Value) :
    present name v = (given v).toList.map fun v => (name, v) := by
  unfold present given
  cases isAbsent v <;> rfl

/-- An event is written as an object of the slots that are given. -/
theorem toValue_eq (e : Event) : e.toValue = .object (fieldsOf e.slots) := by
  unfold toValue fieldsOf slots plainFields
  simp only [present_eq]
  cases e.timestamp <;> cases e.properties.isEmpty <;> cases e.items.isEmpty <;> simp

/-- A name is looked up in the written fields as in the slots, since no slot comes twice. -/
theorem lookup_fieldsOf {slots : List (String × Option Value)} (hNodup : (slots.map (·.1)).Nodup)
    (name : String) : (fieldsOf slots).lookup name = (slots.lookup name).join := by
  induction slots with
  | nil => rfl
  | cons s rest ih =>
    obtain ⟨n, v⟩ := s
    rw [List.map_cons, List.nodup_cons] at hNodup
    have hCons : fieldsOf ((n, v) :: rest) = (v.toList.map fun v => (n, v)) ++ fieldsOf rest :=
      List.flatMap_cons ..
    rw [hCons, List.lookup_append, ih hNodup.2, List.lookup_cons]
    by_cases hName : name = n
    · -- a name that is left out here does not come again
      subst hName
      have hNone : rest.lookup name = none := by
        rw [List.lookup_eq_none_iff]
        intro p hp
        have hne : name ≠ p.1 := fun hEq => hNodup.1 (List.mem_map.mpr ⟨p, hp, hEq.symm⟩)
        simpa using hne
      rw [hNone]
      cases v <;> simp
    · have hSkip : (v.toList.map fun v => (n, v)).lookup name = none := by
        rw [List.lookup_eq_none_iff]
        intro p hp
        obtain ⟨_, _, rfl⟩ := List.mem_map.mp hp
        simpa using hName
      rw [beq_eq_false_iff_ne.mpr hName, hSkip, Option.none_or]

/-- No name is written twice. -/
theorem nodup_slots (e : Event) : (e.slots.map (·.1)).Nodup := by
  have hNames : e.slots.map (·.1) = ["kind", "timestamp", "message", "projectFile", "targetName",
      "taskName", "succeeded", "commandLine", "code", "file", "line", "column", "properties",
      "items"] := rfl
  rw [hNames]
  decide

/-- A field of a written event is the value of its slot, or null where it is left out. -/
theorem field_fieldsOf (e : Event) (name : String) :
    Value.field (fieldsOf e.slots) name = ((e.slots.lookup name).join).getD .null := by
  rw [Value.field, lookup_fieldsOf e.nodup_slots]

-- ---------------------------------------------------------------------------
-- Events
-- ---------------------------------------------------------------------------

/-- Items with tidy metadata are decoded from what they are written as. -/
theorem decodeItems_map_toValue {items : List Item} (h : ∀ item ∈ items, item.metadata.Tidy) :
    decodeItems (items.map Item.toValue) = .ok items := by
  induction items with
  | nil => rfl
  | cons item items ih =>
    rw [List.forall_mem_cons] at h
    rw [List.map_cons, decodeItems, Item.ofValue_toValue h.1, ih h.2]
    rfl

/-- Items that are decoded have tidy metadata. -/
theorem tidy_of_decodeItems {vs : List Value} {items : List Item} (h : decodeItems vs = .ok items) :
    ∀ item ∈ items, item.metadata.Tidy := by
  induction vs generalizing items with
  | nil =>
    cases h
    exact nofun
  | cons v vs ih =>
    obtain ⟨item, hItem, h⟩ := Except.bind_eq_ok.mp h
    obtain ⟨rest, hRest, h⟩ := Except.bind_eq_ok.mp h
    cases h
    rw [List.forall_mem_cons]
    exact ⟨Item.tidy_of_ofValue hItem, ih hRest⟩

/-- The items of an event that is decoded have tidy metadata, whatever form they had. -/
theorem tidy_of_itemsOfValue {v : Value} {items : List Item} (h : itemsOfValue v = .ok items) :
    ∀ item ∈ items, item.metadata.Tidy := by
  unfold itemsOfValue at h
  split at h
  · split at h
    · cases h
    · split at h
      · cases h
      · next hItems =>
        cases h
        exact tidy_of_decodeItems hItems
  · cases h
    exact nofun

/-- A timestamp that is decoded can be read from what it is written as. -/
theorem exact_of_timestampOfValue {v : Value} {stamp : Option Timestamp}
    (h : timestampOfValue v = .ok stamp) : ∀ t, stamp = some t → t.Exact := by
  unfold timestampOfValue at h
  split at h
  · split at h
    · split at h
      · next hRead =>
        cases h
        intro t hSome
        obtain rfl := Option.some.inj hSome
        exact Timestamp.exact_of_read hRead
      · cases h
    · cases h
  · cases h
    exact nofun

/-- An event that is decoded is tidy. -/
theorem tidy_of_ofValue {v : Value} {e : Event} (h : ofValue v = .ok e) : e.Tidy := by
  cases v with
  | object fields =>
    rw [ofValue] at h
    cases hKind : kindOfValue (Value.field fields "kind") with
    | error f =>
      rw [hKind] at h
      cases h
    | ok kind =>
      rw [hKind] at h
      cases hFields : ofFields kind fields with
      | error f =>
        simp only [hFields] at h
        cases h
      | ok read =>
        simp only [hFields] at h
        cases h
        obtain ⟨timestamp, hTimestamp, hFields⟩ := Except.bind_eq_ok.mp hFields
        obtain ⟨properties, _, hFields⟩ := Except.bind_eq_ok.mp hFields
        obtain ⟨items, hItems, hFields⟩ := Except.bind_eq_ok.mp hFields
        cases hFields
        exact ⟨exact_of_timestampOfValue hTimestamp, tidy_of_itemsOfValue hItems⟩
  | null | bool | int | float | text | list => cases h

/-- The timestamp of a written event is decoded as it was. -/
theorem timestampOfValue_fieldsOf {e : Event} (h : e.Tidy) :
    timestampOfValue (Value.field (fieldsOf e.slots) "timestamp") = .ok e.timestamp := by
  have hField : Value.field (fieldsOf e.slots) "timestamp" =
      (e.timestamp.map fun t => Value.text t.text).getD .null := field_fieldsOf e _
  rw [hField]
  cases hStamp : e.timestamp with
  | none => rfl
  | some t =>
    have hHolds : (Value.text t.text).holds = true := by
      simpa using t.text_ne_empty
    rw [Option.map_some, Option.getD_some, timestampOfValue, if_pos hHolds,
      Timestamp.read_text (h.timestamp t hStamp)]

/-- The properties of a written event are decoded as they were, since all of them are written as
texts. -/
theorem propertiesOfValue_fieldsOf (e : Event) :
    propertiesOfValue (Value.field (fieldsOf e.slots) "properties") = .ok e.properties := by
  have hField : Value.field (fieldsOf e.slots) "properties" =
      (if e.properties.isEmpty then none else some e.propertiesValue).getD .null :=
    field_fieldsOf e _
  rw [hField]
  cases hProperties : e.properties with
  | nil => rfl
  | cons p rest =>
    rw [← hProperties]
    have hTexts : (e.properties.map fun p => (p.1, Value.text p.2)).map
        (fun f => (f.1, f.2.written)) = e.properties := by
      rw [List.map_map]
      exact List.map_id _
    have hSome : e.properties.isEmpty = false := by rw [hProperties]; rfl
    have hHolds : e.propertiesValue.holds = true := by
      rw [propertiesValue, hProperties]
      rfl
    rw [hSome, if_neg Bool.false_ne_true, Option.getD_some]
    unfold propertiesOfValue
    rw [if_pos hHolds]
    exact congrArg Except.ok hTexts

/-- The items of a written event are decoded as they were. -/
theorem itemsOfValue_fieldsOf {e : Event} (h : e.Tidy) :
    itemsOfValue (Value.field (fieldsOf e.slots) "items") = .ok e.items := by
  have hField : Value.field (fieldsOf e.slots) "items" =
      (if e.items.isEmpty then none else some (Value.list (e.items.map Item.toValue))).getD .null :=
    field_fieldsOf e _
  rw [hField]
  cases hItems : e.items with
  | nil => rfl
  | cons item rest =>
    rw [← hItems]
    have hSome : e.items.isEmpty = false := by rw [hItems]; rfl
    have hHolds : (Value.list (e.items.map Item.toValue)).holds = true := by
      rw [hItems]
      rfl
    rw [hSome, if_neg Bool.false_ne_true, Option.getD_some, itemsOfValue, if_pos hHolds,
      Value.elements_list]
    simp only [decodeItems_map_toValue h.items]

/-- The fields of a tidy event are those of the event. -/
theorem ofFields_fieldsOf {e : Event} (h : e.Tidy) :
    ofFields e.kind (fieldsOf e.slots) = .ok e := by
  have hPlain : ∀ name v, e.slots.lookup name = some (given v) →
      Value.field (fieldsOf e.slots) name = v := by
    intro name v hSlot
    rw [field_fieldsOf, hSlot]
    exact getD_given v
  rw [ofFields, timestampOfValue_fieldsOf h, propertiesOfValue_fieldsOf, itemsOfValue_fieldsOf h,
    hPlain "message" e.message rfl, hPlain "projectFile" e.projectFile rfl,
    hPlain "targetName" e.targetName rfl, hPlain "taskName" e.taskName rfl,
    hPlain "succeeded" e.succeeded rfl, hPlain "commandLine" e.commandLine rfl,
    hPlain "code" e.code rfl, hPlain "file" e.file rfl, hPlain "line" e.line rfl,
    hPlain "column" e.column rfl]
  rfl

/-- A tidy event is decoded from what it is written as. -/
theorem ofValue_toValue {e : Event} (h : e.Tidy) : ofValue e.toValue = .ok e := by
  have hKind : kindOfValue (Value.field (fieldsOf e.slots) "kind") = .ok e.kind := by
    rw [field_fieldsOf]
    show kindOfValue (.text e.kind.name) = _
    rw [kindOfValue, Kind.ofName?_name]
  rw [toValue_eq, ofValue, hKind]
  simp only [ofFields_fieldsOf h]

/-- The form in which an event is written that a value is decoded as. -/
def normalForm (d : Value) : Except Fault Value :=
  (ofValue d).map toValue

/-- A value that is accepted as an event is written as a value that is accepted as the same event,
and which is written as itself. -/
theorem ofValue_toValue_of_ofValue {d : Value} {e : Event} (h : ofValue d = .ok e) :
    ofValue e.toValue = .ok e ∧ normalForm d = .ok e.toValue ∧
      normalForm e.toValue = .ok e.toValue := by
  have hAgain : ofValue e.toValue = .ok e := ofValue_toValue (tidy_of_ofValue h)
  refine ⟨hAgain, ?_, ?_⟩
  · rw [normalForm, h]
    rfl
  · rw [normalForm, hAgain]
    rfl

/-- The fields of an event with a week date before a short negative offset, with properties that
are no texts, and with a metadata name in two spellings. -/
def weekDatedFields : List (String × Value) :=
  [ ("kind", .text "ProjectStarted"), ("note", .text "not kept"),
    ("timestamp", .text "2024-W52-7T23:59:59.123456789-00:00:30"), ("message", .int 0),
    ("properties", .object [("Optimize", .bool true), ("Level", .int 4), ("optimize", .null)]),
    ("items", .list [.object [("itemType", .text "Compile"), ("itemSpec", .text "a.cs"),
      ("metadata", .object [("Link", .text "b.cs"), ("Copy", .int 1), ("LINK", .text "c.cs")])]]) ]

def weekDated : Event where
  kind := .projectStarted
  timestamp := some ⟨⟨2024, 12, 29⟩, 23, 59, 59, 123456, some (-30000000)⟩
  message := .int 0
  properties := [("Optimize", "True"), ("Level", "4"), ("optimize", "None")]
  items := [⟨"Compile", "a.cs", ⟨⟨[("link", "LINK", "c.cs"), ("copy", "Copy", "1")]⟩⟩⟩]

/-- Decoding the fields brings the date, the properties and the metadata into their own form, and
writing the event and decoding it again changes nothing more. -/
theorem ofValue_toValue_weekDated :
    ofValue (.object weekDatedFields) = .ok weekDated ∧
      ofValue weekDated.toValue = .ok weekDated := by
  have hOption : (Timestamp.read "2024-W52-7T23:59:59.123456789-00:00:30").toOption =
      weekDated.timestamp := by decide +kernel
  have hStamp : timestampOfValue (Value.field weekDatedFields "timestamp") =
      .ok weekDated.timestamp := by
    have hField : Value.field weekDatedFields "timestamp" =
        .text "2024-W52-7T23:59:59.123456789-00:00:30" := rfl
    rw [hField, timestampOfValue, if_pos (by decide)]
    cases hRead : Timestamp.read "2024-W52-7T23:59:59.123456789-00:00:30" with
    | error fault =>
      rw [hRead] at hOption
      cases hOption
    | ok t =>
      rw [hRead] at hOption
      exact congrArg Except.ok hOption
  have hFields : ofFields .projectStarted weekDatedFields = .ok weekDated := by
    have hProperties : propertiesOfValue (Value.field weekDatedFields "properties") =
        .ok weekDated.properties := rfl
    have hItems : itemsOfValue (Value.field weekDatedFields "items") = .ok weekDated.items := rfl
    rw [ofFields, hStamp, hProperties, hItems]
    rfl
  have hEvent : ofValue (.object weekDatedFields) = .ok weekDated := by
    have hKind : kindOfValue (Value.field weekDatedFields "kind") = .ok .projectStarted := rfl
    rw [ofValue, hKind]
    simp only [hFields]
  exact ⟨hEvent, (ofValue_toValue_of_ofValue hEvent).1⟩

end Event

end BuildDigest
