import BuildDigest.Event.Codec
import BuildDigest.Proofs.Outcome

/-!
# What is refused as an event

Decoding an event has no list of checks. It uses every field in the way that a field of
the right sort allows, and refuses the event when a use fails; a field that counts as
absent is not used at all. Here the values that are refused are told without the uses: by
the sorts that the fields may have.

Main definitions.
* `Item.Malformed`, `Event.Malformed` — what makes a value no item, and no event.
* `Event.FieldFault.IsUse` — the ways in which the use of a field fails.

Main statement.
* `Event.ofValue_refuses_iff` — the values that are refused are those that are malformed, all
  others are decoded, and a field refuses an event in no other way.
-/

open BuildDigest.Except (FailsIff)

namespace BuildDigest

/-- What makes a value no item. -/
inductive Item.Malformed : Value → Prop
  | notObject {v : Value} (hKind : v.kind ≠ .object) : Malformed v
  | lacksType {fields : List (String × Value)} (hLacks : fields.lookup "itemType" = none) :
    Malformed (.object fields)
  | lacksSpec {fields : List (String × Value)} (hLacks : fields.lookup "itemSpec" = none) :
    Malformed (.object fields)
  | metadata {fields : List (String × Value)}
    (hGiven : (Value.field fields "metadata").holds = true)
    (hKind : (Value.field fields "metadata").kind ≠ .object) : Malformed (.object fields)

namespace Event

/-- What makes a value no items of an event. -/
inductive MalformedItems : Value → Prop
  | notList {v : Value} (hGiven : v.holds = true) (hKind : v.kind ≠ .list) : MalformedItems v
  | element {elements : List Value} {item : Value} (hItem : item ∈ elements)
    (hMalformed : Item.Malformed item) : MalformedItems (.list elements)

/-- What makes the fields of an event malformed. -/
inductive MalformedFields (fields : List (String × Value)) : Prop
  | timestamp (hGiven : (Value.field fields "timestamp").holds = true)
    (hUnread : ∀ s t, Value.field fields "timestamp" = .text s → Timestamp.read s ≠ .ok t)
  | properties (hGiven : (Value.field fields "properties").holds = true)
    (hKind : (Value.field fields "properties").kind ≠ .object)
  | items (hItems : MalformedItems (Value.field fields "items"))

/-- What makes a value no event. -/
inductive Malformed : Value → Prop
  | notObject {d : Value} (hKind : d.kind ≠ .object) : Malformed d
  | unknownKind {fields : List (String × Value)}
    (hKind : ∀ kind : Kind, Value.field fields "kind" ≠ .text kind.name) :
    Malformed (.object fields)
  | fields {fields : List (String × Value)} (hFields : MalformedFields fields) :
    Malformed (.object fields)

/-- The ways in which the use of a field fails: it is of the wrong sort for the use, it has no
elements to go through, it lacks a name, or it is no timestamp. -/
inductive FieldFault.IsUse : FieldFault → Prop
  | unusable (kind : Value.Kind) (use : Use) : IsUse (.value (.unusable kind use))
  | notIterable (kind : Value.Kind) : IsUse (.value (.notIterable kind))
  | missing (name : Value) : IsUse (.value (.missing name))
  | timestamp (fault : Timestamp.Fault) : IsUse (.timestamp fault)

end Event

-- ---------------------------------------------------------------------------
-- Items
-- ---------------------------------------------------------------------------

namespace Item

/-- The ways in which the use of a field of an item fails. -/
def IsUse (fault : Fault) : Prop :=
  Event.FieldFault.IsUse (.value fault)

/-- A field that is demanded fails exactly if it is not there. -/
theorem failsIff_demandField (fields : List (String × Value)) (name : String) :
    FailsIff IsUse (fields.lookup name = none) (demandField fields name) := by
  unfold demandField
  cases hName : fields.lookup name with
  | none => exact ⟨rfl, .missing (.text name)⟩
  | some v => exact nofun

/-- Metadata fail exactly if they are given and no object. -/
theorem failsIff_metadataOfValue (v : Value) :
    FailsIff IsUse (v.holds = true ∧ v.kind ≠ .object) (metadataOfValue v) := by
  unfold metadataOfValue
  split
  · next hGiven =>
    cases v with
    | object fields => exact fun hWrong => hWrong.2 rfl
    | null | bool _ | int _ | float _ | text _ | list _ =>
      exact ⟨⟨hGiven, nofun⟩, .unusable _ .items⟩
  · next hAbsent => exact fun hWrong => hAbsent hWrong.1

/-- Of an object, the type, the text and the metadata of an item may be at fault. -/
theorem malformed_object_iff (fields : List (String × Value)) :
    Malformed (.object fields) ↔
      fields.lookup "itemType" = none ∨ fields.lookup "itemSpec" = none ∨
        ((Value.field fields "metadata").holds = true ∧
          (Value.field fields "metadata").kind ≠ .object) := by
  constructor
  · rintro (hKind | hLacks | hLacks | ⟨hGiven, hKind⟩)
    · exact absurd rfl hKind
    · exact Or.inl hLacks
    · exact Or.inr (Or.inl hLacks)
    · exact Or.inr (Or.inr ⟨hGiven, hKind⟩)
  · rintro (hLacks | hLacks | ⟨hGiven, hKind⟩)
    · exact .lacksType hLacks
    · exact .lacksSpec hLacks
    · exact .metadata hGiven hKind

/-- A value is refused as an item exactly if it is malformed, and for the use of a field. -/
theorem failsIff_ofValue (v : Value) : FailsIff IsUse (Malformed v) (ofValue v) := by
  cases v with
  | object fields =>
    refine FailsIff.of_iff ?_ (malformed_object_iff fields).symm
    exact (failsIff_demandField fields _).bind fun _ =>
      (failsIff_demandField fields _).bind fun _ => (failsIff_metadataOfValue _).map _
  | null | bool _ | int _ | float _ | text _ | list _ =>
    exact ⟨.notObject nofun, .unusable _ .get⟩

end Item

-- ---------------------------------------------------------------------------
-- Fields of events
-- ---------------------------------------------------------------------------

namespace Event

/-- A timestamp fails exactly if it is given and no text that is read as one. -/
theorem failsIff_timestampOfValue (v : Value) :
    FailsIff FieldFault.IsUse
      (v.holds = true ∧ ∀ s t, v = .text s → Timestamp.read s ≠ .ok t) (timestampOfValue v) := by
  unfold timestampOfValue
  split
  · next hGiven =>
    cases v with
    | text s =>
      cases hRead : Timestamp.read s with
      | ok t =>
        simp only [hRead]
        exact fun hWrong => hWrong.2 s t rfl hRead
      | error fault =>
        simp only [hRead]
        refine ⟨⟨hGiven, ?_⟩, .timestamp fault⟩
        rintro _ t ⟨⟩ hOk
        rw [hRead] at hOk
        cases hOk
    | null | bool _ | int _ | float _ | list _ | object _ =>
      exact ⟨⟨hGiven, nofun⟩, .unusable _ .endsWith⟩
  · next hAbsent => exact fun hWrong => hAbsent hWrong.1

/-- Properties fail exactly if they are given and no object. -/
theorem failsIff_propertiesOfValue (v : Value) :
    FailsIff FieldFault.IsUse (v.holds = true ∧ v.kind ≠ .object) (propertiesOfValue v) := by
  unfold propertiesOfValue
  split
  · next hGiven =>
    cases v with
    | object fields => exact fun hWrong => hWrong.2 rfl
    | null | bool _ | int _ | float _ | text _ | list _ =>
      exact ⟨⟨hGiven, nofun⟩, .unusable _ .items⟩
  · next hAbsent => exact fun hWrong => hAbsent hWrong.1

/-- Items fail exactly if one of them is malformed: they are decoded one by one, up to the first
that is. -/
theorem failsIff_decodeItems (vs : List Value) :
    FailsIff Item.IsUse (∃ v ∈ vs, Item.Malformed v) (decodeItems vs) := by
  induction vs with
  | nil => exact nofun
  | cons v rest ih =>
    have hCons : (∃ u ∈ v :: rest, Item.Malformed u) ↔
        Item.Malformed v ∨ ∃ u ∈ rest, Item.Malformed u := by
      simp only [List.mem_cons, exists_eq_or_imp]
    refine FailsIff.of_iff ?_ hCons.symm
    exact (Item.failsIff_ofValue v).bind fun item => ih.map (item :: ·)

/-- Nothing that is given but no list has items for elements: a text and an object have texts. -/
theorem malformed_of_mem_elements {v : Value} {vs : List Value} (hKind : v.kind ≠ .list)
    (hElements : v.elements = .ok vs) : ∀ u ∈ vs, Item.Malformed u := by
  intro u hu
  cases v with
  | list _ => exact absurd rfl hKind
  | text s =>
    cases hElements
    obtain ⟨c, -, rfl⟩ := List.mem_map.mp hu
    exact .notObject nofun
  | object fields =>
    cases hElements
    obtain ⟨f, -, rfl⟩ := List.mem_map.mp hu
    exact .notObject nofun
  | null | bool _ | int _ | float _ => cases hElements

/-- A value that counts as given has elements to go through, if it has any sort of them. -/
theorem ne_nil_of_elements {v : Value} {vs : List Value} (hGiven : v.holds = true)
    (hElements : v.elements = .ok vs) : vs ≠ [] := by
  cases v with
  | list _ =>
    cases hElements
    simpa [Value.holds] using hGiven
  | text s =>
    cases hElements
    simpa using hGiven
  | object fields =>
    cases hElements
    simpa [Value.holds] using hGiven
  | null | bool _ | int _ | float _ => cases hElements

/-- A value without elements to go through is no list, and its sort is what is reported. -/
theorem eq_of_elements_error {v : Value} {fault : BuildDigest.Fault}
    (hElements : v.elements = .error fault) : fault = .notIterable v.kind ∧ v.kind ≠ .list := by
  cases v with
  | list _ | text _ | object _ => cases hElements
  | null | bool _ | int _ | float _ =>
    cases hElements
    exact ⟨rfl, nofun⟩

/-- A value with elements, all of which have to be items: a value without a list among them has a
malformed one. -/
theorem malformedItems_iff {v : Value} {vs : List Value} (hGiven : v.holds = true)
    (hElements : v.elements = .ok vs) : MalformedItems v ↔ ∃ u ∈ vs, Item.Malformed u := by
  by_cases hKind : v.kind = .list
  · obtain ⟨elements, rfl⟩ : ∃ elements, v = .list elements := by
      cases v with
      | list elements => exact ⟨elements, rfl⟩
      | null | bool _ | int _ | float _ | text _ | object _ => cases hKind
    cases hElements
    constructor
    · rintro (⟨-, hOther⟩ | ⟨hItem, hMalformed⟩)
      · exact absurd rfl hOther
      · exact ⟨_, hItem, hMalformed⟩
    · rintro ⟨item, hItem, hMalformed⟩
      exact .element hItem hMalformed
  · refine ⟨fun _ => ?_, fun _ => .notList hGiven hKind⟩
    obtain ⟨u, hu⟩ := List.exists_mem_of_ne_nil vs (ne_nil_of_elements hGiven hElements)
    exact ⟨u, hu, malformed_of_mem_elements hKind hElements u hu⟩

/-- The items of an event fail exactly if they are given and no list, or have an element that is no
item. -/
theorem failsIff_itemsOfValue (v : Value) :
    FailsIff FieldFault.IsUse (MalformedItems v) (itemsOfValue v) := by
  unfold itemsOfValue
  split
  · next hGiven =>
    cases hElements : v.elements with
    | error fault =>
      obtain ⟨rfl, hKind⟩ := eq_of_elements_error hElements
      exact ⟨.notList hGiven hKind, .notIterable _⟩
    | ok vs =>
      refine FailsIff.of_iff ?_ (malformedItems_iff hGiven hElements).symm
      have hDecode := failsIff_decodeItems vs
      cases hItems : decodeItems vs with
      | error fault =>
        rw [hItems] at hDecode
        simp only [hItems]
        exact hDecode
      | ok items =>
        rw [hItems] at hDecode
        simp only [hItems]
        exact hDecode
  · next hAbsent =>
    rintro (⟨hGiven, -⟩ | ⟨hItem, -⟩)
    · exact hAbsent hGiven
    · simp [Value.holds, List.ne_nil_of_mem hItem] at hAbsent

-- ---------------------------------------------------------------------------
-- Events
-- ---------------------------------------------------------------------------

/-- The fields of an event are malformed for their timestamp, their properties or their items. -/
theorem malformedFields_iff (fields : List (String × Value)) :
    MalformedFields fields ↔
      ((Value.field fields "timestamp").holds = true ∧
          ∀ s t, Value.field fields "timestamp" = .text s → Timestamp.read s ≠ .ok t) ∨
        ((Value.field fields "properties").holds = true ∧
          (Value.field fields "properties").kind ≠ .object) ∨
        MalformedItems (Value.field fields "items") := by
  constructor
  · rintro (⟨hGiven, hUnread⟩ | ⟨hGiven, hKind⟩ | hItems)
    · exact Or.inl ⟨hGiven, hUnread⟩
    · exact Or.inr (Or.inl ⟨hGiven, hKind⟩)
    · exact Or.inr (Or.inr hItems)
  · rintro (⟨hGiven, hUnread⟩ | ⟨hGiven, hKind⟩ | hItems)
    · exact .timestamp hGiven hUnread
    · exact .properties hGiven hKind
    · exact .items hItems

/-- The fields of an event fail exactly if they are malformed, whichever of them comes first. -/
theorem failsIff_ofFields (kind : Kind) (fields : List (String × Value)) :
    FailsIff FieldFault.IsUse (MalformedFields fields) (ofFields kind fields) := by
  refine FailsIff.of_iff ?_ (malformedFields_iff fields).symm
  exact (failsIff_timestampOfValue _).bind fun _ => (failsIff_propertiesOfValue _).bind fun _ =>
    (failsIff_itemsOfValue _).map _

/-- A kind is refused exactly if it is none of the names of kinds. -/
theorem kindOfValue_error_iff (v : Value) :
    (∃ fault, kindOfValue v = .error fault) ↔ ∀ kind : Kind, v ≠ .text kind.name := by
  constructor
  · rintro ⟨fault, hFault⟩ kind rfl
    rw [kindOfValue, Kind.ofName?_name] at hFault
    cases hFault
  · intro hUnknown
    cases v with
    | text s =>
      rw [kindOfValue]
      cases hName : Kind.ofName? s with
      | none => exact ⟨_, rfl⟩
      | some kind =>
        have hSame : kind.name = s := by simpa using List.find?_some hName
        exact absurd (congrArg Value.text hSame.symm) (hUnknown kind)
    | null | bool _ | int _ | float _ | list _ | object _ => exact ⟨_, rfl⟩

/-- What is refused as a kind is shown as it came. -/
theorem eq_of_kindOfValue_error {v : Value} {fault : Fault} (hFault : kindOfValue v = .error fault) :
    fault = .unknownKind v := by
  unfold kindOfValue at hFault
  split at hFault
  · split at hFault
    · cases hFault
    · exact (Except.error.inj hFault).symm
  · exact (Except.error.inj hFault).symm

/-- A refusal that names a field tells of a use of that field. -/
def Fault.IsUse : Fault → Prop
  | .malformed _ fault => fault.IsUse
  | .notObject _ | .unknownKind _ => True

/-- A value is refused as an event exactly if it is malformed, and only with a fault of the form of
events. -/
theorem failsIff_ofValue (d : Value) : FailsIff Fault.IsUse (Malformed d) (ofValue d) := by
  cases d with
  | object fields =>
    rw [ofValue]
    cases hKind : kindOfValue (Value.field fields "kind") with
    | error fault =>
      have hUnknown := (kindOfValue_error_iff _).mp ⟨fault, hKind⟩
      refine ⟨.unknownKind hUnknown, ?_⟩
      rw [eq_of_kindOfValue_error hKind]
      trivial
    | ok kind =>
      have hKnown : Malformed (.object fields) ↔ MalformedFields fields := by
        refine ⟨?_, .fields⟩
        rintro (hNot | hUnknown | hFields)
        · exact absurd rfl hNot
        · obtain ⟨fault, hFault⟩ := (kindOfValue_error_iff _).mpr hUnknown
          rw [hKind] at hFault
          cases hFault
        · exact hFields
      refine FailsIff.of_iff ?_ hKnown.symm
      have hFields := failsIff_ofFields kind fields
      cases hEvent : ofFields kind fields with
      | error fault =>
        rw [hEvent] at hFields
        simp only [hEvent]
        exact hFields
      | ok e =>
        rw [hEvent] at hFields
        simp only [hEvent]
        exact hFields
  | null | bool _ | int _ | float _ | text _ | list _ => exact ⟨.notObject nofun, trivial⟩

/-- The values that are refused as events are those that are malformed; all others are decoded. A
field whose use fails refuses the event with that failure, which is of one of four forms. -/
theorem ofValue_refuses_iff (d : Value) :
    ((∃ fault, ofValue d = .error fault) ↔ Malformed d) ∧
      ((∃ e, ofValue d = .ok e) ↔ ¬ Malformed d) ∧
      ∀ kind fault, ofValue d = .error (.malformed kind fault) → fault.IsUse := by
  have hRefuses := failsIff_ofValue d
  refine ⟨hRefuses.exists_error_iff, hRefuses.exists_ok_iff, ?_⟩
  intro kind fault hFault
  rw [hFault] at hRefuses
  exact hRefuses.2

end Event

end BuildDigest
