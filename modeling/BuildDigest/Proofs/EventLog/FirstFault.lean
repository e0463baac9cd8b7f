import BuildDigest.Proofs.EventLog.Lines
import BuildDigest.Proofs.Json.Limits

/-!
# Logs up to their first fault

A line of a log that is not blank is an event, or it is at fault. Reading yields the
events of the lines before the first one at fault and reports this one by its number;
without such a line it yields all events. So neither the blank lines of a log nor the
ends of its lines change the events, and what stands after the fault changes nothing.

Main definitions.
* `eventsOf` — the events of the lines before the first one at fault.
* `firstFault?` — the first line at fault.
* `Entry.Stops` — why reading stops at a line.

Main statements.
* `readLines_eq` — what the numbered lines of a log yield.
* `read_upToFault` — what a log yields that holds a text within the limits of the JSON reader.
-/

namespace BuildDigest.EventLog

/-- Whether a fault is one of the form of a log, or of its place. -/
def Fault.isFormat : Fault → Bool
  | .unreadable _ _ | .invalidJson _ _ _ | .badEvent _ _ _ => true
  | _ => false

/-- The event that a line holds, if it holds one. -/
def Entry.event? (depth : Nat) (entry : Entry) : Option Event :=
  (Json.readChars depth entry.text).toOption.bind fun v => (Event.ofValue v).toOption

/-- The events of the lines before the first one that holds none. -/
def eventsOf (depth : Nat) (entries : List Entry) : List Event :=
  (entries.takeWhile fun entry => (entry.event? depth).isSome).filterMap (Entry.event? depth)

/-- The first line that holds no event. -/
def firstFault? (depth : Nat) (entries : List Entry) : Option Entry :=
  entries.find? fun entry => (entry.event? depth).isNone

/-- What reading a line reports if it holds no event. -/
def Entry.fault? (depth : Nat) (path : String) (entry : Entry) : Option Fault :=
  match readLine depth path entry.number entry.text with
  | .error fault => some fault
  | .ok _ => none

/-- The reasons for which reading stops at a line, with what it reports. -/
inductive Entry.Stops (depth : Nat) (path : String) (entry : Entry) : Fault → Prop
  | notJson {fault : Json.Fault} (hRead : Json.readChars depth entry.text = .error fault)
    (hGrammar : fault.isLimit = false) :
    Stops depth path entry (.invalidJson path entry.number fault)
  | notEvent {v : Value} {fault : Event.Fault} (hRead : Json.readChars depth entry.text = .ok v)
    (hEvent : Event.ofValue v = .error fault) :
    Stops depth path entry (.badEvent path entry.number fault)
  | longWhole {digits : Nat}
    (hRead : Json.readChars depth entry.text = .error (.longWhole digits)) :
    Stops depth path entry (.longWhole digits)
  | tooDeep {isObject : Bool}
    (hRead : Json.readChars depth entry.text = .error (.tooDeep isObject)) :
    Stops depth path entry (.tooDeep isObject)

-- ---------------------------------------------------------------------------
-- One line
-- ---------------------------------------------------------------------------

section

variable {depth : Nat} {path : String} {entry : Entry} {fault : Fault}

/-- A line with an event is read as this event. -/
theorem readLine_of_event? {event : Event} (h : entry.event? depth = some event) :
    readLine depth path entry.number entry.text = .ok event := by
  cases hRead : Json.readChars depth entry.text with
  | error fault => simp [Entry.event?, hRead, Except.toOption] at h
  | ok v =>
    rw [readLine_of_readChars hRead]
    cases hEvent : Event.ofValue v with
    | error fault => simp [Entry.event?, hRead, hEvent, Except.toOption] at h
    | ok e =>
      have hSame : e = event := by simpa [Entry.event?, hRead, hEvent, Except.toOption] using h
      rw [hSame]
      rfl

/-- A line without an event stops the reading. -/
theorem exists_stops (path : String) (h : entry.event? depth = none) :
    ∃ fault, readLine depth path entry.number entry.text = .error fault ∧
      entry.Stops depth path fault := by
  cases hRead : Json.readChars depth entry.text with
  | error fault =>
    cases hLimit : fault.isLimit with
    | false =>
      refine ⟨_, ?_, .notJson hRead hLimit⟩
      cases fault with
      | longWhole _ | tooDeep _ => cases hLimit
      | _ => rw [readLine, hRead]
    | true =>
      cases fault with
      | longWhole _ => exact ⟨_, by rw [readLine, hRead], .longWhole hRead⟩
      | tooDeep _ => exact ⟨_, by rw [readLine, hRead], .tooDeep hRead⟩
      | _ => cases hLimit
  | ok v =>
    cases hEvent : Event.ofValue v with
    | error fault =>
      refine ⟨_, ?_, .notEvent hRead hEvent⟩
      rw [readLine_of_readChars hRead, hEvent]
      rfl
    | ok e => simp [Entry.event?, hRead, hEvent, Except.toOption] at h

/-- Within the limits of the JSON reader, and only there, a fault of the form is reported. -/
theorem Entry.Stops.isFormat (h : entry.Stops depth path fault) :
    fault.isFormat = Json.withinLimits depth entry.text := by
  cases h with
  | notJson hRead hGrammar => simp [Fault.isFormat, Json.withinLimits, hRead, hGrammar]
  | notEvent hRead _ => simp [Fault.isFormat, Json.withinLimits, hRead]
  | longWhole hRead | tooDeep hRead =>
    simp [Fault.isFormat, Json.withinLimits, hRead, Json.Fault.isLimit]

/-- A fault of the form is reported with the place of the line. -/
theorem Entry.Stops.message (h : entry.Stops depth path fault) (hFormat : fault.isFormat = true) :
    ∃ reason, fault.message = s!"{path}:{entry.number}: " ++ reason := by
  cases h with
  | @notJson fault _ _ =>
    have hWords : ": invalid JSON: " = ": " ++ "invalid JSON: " := rfl
    refine ⟨"invalid JSON: " ++ fault.message, ?_⟩
    show path ++ ":" ++ toString entry.number ++ ": invalid JSON: " ++ fault.message =
      path ++ ":" ++ toString entry.number ++ ": " ++ ("invalid JSON: " ++ fault.message)
    simp only [hWords, String.append_assoc]
  | @notEvent _ fault _ _ => exact ⟨fault.message, rfl⟩
  | longWhole _ | tooDeep _ => cases hFormat

end

-- ---------------------------------------------------------------------------
-- All lines
-- ---------------------------------------------------------------------------

/-- Lines behind others are numbered from where those end. -/
theorem filledFrom_append (number : Nat) (rows more : List (List Char)) :
    filledFrom number (rows ++ more) =
      filledFrom number rows ++ filledFrom (number + rows.length) more := by
  simp only [filledFrom, List.zipIdx_append, List.map_append, List.filter_append]

/-- The numbers aside, the lines that are not blank are the stripped ones that hold a character. -/
theorem map_text_filledFrom (number : Nat) (rows : List (List Char)) :
    (filledFrom number rows).map (·.text) =
      (rows.map Text.stripChars).filter (!·.isEmpty) := by
  induction rows generalizing number with
  | nil => rfl
  | cons line rows ih =>
    by_cases hBlank : (Text.stripChars line).isEmpty = true
    · rw [filledFrom_cons_blank hBlank, ih]
      simp [hBlank]
    · rw [filledFrom_cons_filled hBlank, List.map_cons, ih]
      simp [hBlank]

/-- The numbered lines of a log yield their events up to the first line at fault. -/
theorem readLines_eq (depth : Nat) (path : String) (number : Nat) (rows : List (List Char)) :
    readLines depth path number rows =
      (eventsOf depth (filledFrom number rows),
        (firstFault? depth (filledFrom number rows)).bind (·.fault? depth path)) := by
  induction rows generalizing number with
  | nil => rfl
  | cons line rows ih =>
    rw [readLines]
    by_cases hBlank : (Text.stripChars line).isEmpty = true
    · rw [if_pos hBlank, filledFrom_cons_blank hBlank, ih]
    · rw [if_neg hBlank, filledFrom_cons_filled hBlank, ih]
      cases hEvent : Entry.event? depth ⟨number, Text.stripChars line⟩ with
      | some event =>
        rw [readLine_of_event? hEvent]
        simp [eventsOf, firstFault?, hEvent]
      | none =>
        obtain ⟨fault, hRead, -⟩ := exists_stops path hEvent
        simp [eventsOf, firstFault?, Entry.fault?, hEvent, hRead]

/-- The first line at fault reports why reading stops there. -/
theorem exists_stops_of_firstFault? {depth : Nat} {entries : List Entry} {entry : Entry}
    (path : String) (hFirst : firstFault? depth entries = some entry) :
    ∃ fault, (firstFault? depth entries).bind (·.fault? depth path) = some fault ∧
      entry.Stops depth path fault := by
  have hNone : entry.event? depth = none := by simpa using List.find?_some hFirst
  obtain ⟨fault, hRead, hStops⟩ := exists_stops path hNone
  refine ⟨fault, ?_, hStops⟩
  rw [hFirst, Option.bind_some, Entry.fault?, hRead]

/-- Reading comes to the end of a log exactly if no line is at fault. -/
theorem readLines_fault_eq_none_iff {depth : Nat} {path : String} {number : Nat}
    {rows : List (List Char)} :
    (readLines depth path number rows).2 = none ↔
      firstFault? depth (filledFrom number rows) = none := by
  rw [readLines_eq]
  cases hFirst : firstFault? depth (filledFrom number rows) with
  | none => simp
  | some entry =>
    obtain ⟨fault, hFault, -⟩ := exists_stops_of_firstFault? path hFirst
    rw [hFirst] at hFault
    simp [hFault]

-- ---------------------------------------------------------------------------
-- Other lines
-- ---------------------------------------------------------------------------

section

variable {depth : Nat} {entries others : List Entry}

/-- The events depend on what the lines hold, not on their numbers. -/
theorem eventsOf_congr (h : entries.map (·.text) = others.map (·.text)) :
    eventsOf depth entries = eventsOf depth others ∧
      (firstFault? depth entries = none ↔ firstFault? depth others = none) := by
  induction entries generalizing others with
  | nil =>
    obtain rfl := List.map_eq_nil_iff.mp h.symm
    exact ⟨rfl, Iff.rfl⟩
  | cons entry entries ih =>
    obtain ⟨other, rest, rfl, hText, hRest⟩ := List.map_eq_cons_iff.mp h.symm
    have hEvent : entry.event? depth = other.event? depth := by
      rw [Entry.event?, Entry.event?, hText]
    obtain ⟨hEvents, hFirst⟩ := ih hRest.symm
    rw [eventsOf, eventsOf] at hEvents
    rw [firstFault?, firstFault?] at hFirst
    rw [eventsOf, eventsOf, firstFault?, firstFault?, List.takeWhile_cons, List.takeWhile_cons,
      List.find?_cons, List.find?_cons, hEvent]
    cases hOther : other.event? depth with
    | none => simp
    | some event => simpa [hEvent, hOther, hEvents] using hFirst

/-- What follows a line at fault adds no event, and the first line at fault stays the first. -/
theorem eventsOf_append_of_fault (h : (firstFault? depth entries).isSome = true)
    (more : List Entry) :
    eventsOf depth (entries ++ more) = eventsOf depth entries ∧
      firstFault? depth (entries ++ more) = firstFault? depth entries := by
  induction entries with
  | nil => cases h
  | cons entry entries ih =>
    rw [firstFault?] at h
    rw [eventsOf, eventsOf, firstFault?, firstFault?] at ih ⊢
    rw [List.cons_append, List.takeWhile_cons, List.takeWhile_cons, List.find?_cons,
      List.find?_cons]
    cases hEntry : entry.event? depth with
    | none => simp
    | some event =>
      obtain ⟨hEvents, hFirst⟩ := ih (by simpa [List.find?_cons, hEntry] using h)
      simp [hEntry, hEvents, hFirst]

/-- Reading goes no further than the first line at fault. -/
theorem readLines_append_of_fault {path : String} {number : Nat} {before : List (List Char)}
    (h : (firstFault? depth (filledFrom number before)).isSome = true)
    (after : List (List Char)) :
    readLines depth path number (before ++ after) = readLines depth path number before := by
  obtain ⟨hEvents, hFirst⟩ :=
    eventsOf_append_of_fault h (filledFrom (number + before.length) after)
  rw [readLines_eq, readLines_eq, filledFrom_append, hEvents, hFirst]

end

-- ---------------------------------------------------------------------------
-- A log
-- ---------------------------------------------------------------------------

/-- A log that holds a text within the limits, however deeply its lines are read, yields the events
of its lines before the first one at fault, and reports the number of this one among all lines. Its
events do not change with its blank lines and its line ends, and what follows the fault changes
nothing. -/
theorem read_upToFault {depth : Nat} {opener : Opener} {path text : String}
    {rows : List (List Char)} (hPath : '\x00' ∉ path.toList)
    (hFile : opener path = .ok text.toUTF8.data.toList)
    (hRows : Text.Written text.toList rows)
    (hLimits : ∀ entry ∈ filled rows, Json.withinLimits depth entry.text = true) :
    let result := read opener (.text path) depth
    result.1 = eventsOf depth (filled rows) ∧
      (firstFault? depth (filled rows) = none → result.2 = none) ∧
      (∀ entry, firstFault? depth (filled rows) = some entry → ∃ fault reason,
        result.2 = some fault ∧ fault.isFormat = true ∧
          fault.message = s!"{Folder.pathText path}:{entry.number}: " ++ reason) ∧
      (∀ (opener' : Opener) (path' text' : String) (rows' : List (List Char)),
        '\x00' ∉ path'.toList → opener' path' = .ok text'.toUTF8.data.toList →
        Text.Written text'.toList rows' →
        (rows'.map Text.stripChars).filter (!·.isEmpty) =
          (rows.map Text.stripChars).filter (!·.isEmpty) →
        (read opener' (.text path') depth).1 = result.1 ∧
          ((read opener' (.text path') depth).2 = none ↔ result.2 = none)) ∧
      (∀ (before after after' : List (List Char)) (opener' : Opener) (text' : String),
        rows = before ++ after → (firstFault? depth (filled before)).isSome = true →
        opener' path = .ok text'.toUTF8.data.toList →
        Text.Written text'.toList (before ++ after') →
        read opener' (.text path) depth = result) := by
  have hRead := read_text depth hPath hFile hRows
  intro result
  refine ⟨?_, ?_, ?_, ?_, ?_⟩
  · show (read opener (.text path) depth).1 = eventsOf depth (filled rows)
    rw [hRead, readLines_eq]
    rfl
  · intro hFirst
    show (read opener (.text path) depth).2 = none
    rw [hRead]
    exact readLines_fault_eq_none_iff.mpr hFirst
  · intro entry hFirst
    obtain ⟨fault, hFault, hStops⟩ := exists_stops_of_firstFault? (Folder.pathText path) hFirst
    have hFormat : fault.isFormat = true :=
      hStops.isFormat.trans (hLimits entry (List.mem_of_find?_eq_some hFirst))
    obtain ⟨reason, hMessage⟩ := hStops.message hFormat
    refine ⟨fault, reason, ?_, hFormat, hMessage⟩
    show (read opener (.text path) depth).2 = some fault
    rw [hRead, readLines_eq]
    exact hFault
  · intro opener' path' text' rows' hPath' hFile' hRows' hSame
    have hTexts : (filled rows').map (·.text) = (filled rows).map (·.text) := by
      rw [filled, filled, map_text_filledFrom, map_text_filledFrom, hSame]
    obtain ⟨hEvents, hFirst⟩ := eventsOf_congr hTexts
    show (read opener' (.text path') depth).1 = (read opener (.text path) depth).1 ∧
      ((read opener' (.text path') depth).2 = none ↔ (read opener (.text path) depth).2 = none)
    rw [read_text depth hPath' hFile' hRows', hRead, readLines_fault_eq_none_iff,
      readLines_fault_eq_none_iff, readLines_eq, readLines_eq]
    exact ⟨hEvents, hFirst⟩
  · rintro before after after' opener' text' rfl hFault hFile' hRows'
    show read opener' (.text path) depth = read opener (.text path) depth
    rw [read_text depth hPath hFile' hRows', hRead, readLines_append_of_fault hFault,
      readLines_append_of_fault hFault]

/-- A log with an event, a blank line, a list and a part of an object, where the lines end in three
ways: the list is the first fault, on the third line. -/
theorem read_upToFault_list :
    let text := "\x7b\"kind\":\"BuildStarted\"\x7d\r\n \r[]\n\x7b"
    let opener : Opener := fun path =>
      if path = "build.jsonl" then .ok text.toUTF8.data.toList else .error .missing
    let result := read opener (.text "build.jsonl")
    result.1.map (·.kind) = [.buildStarted] ∧ ∃ fault reason, result.2 = some fault ∧
      fault.message = "build.jsonl:3: " ++ reason := by
  intro text opener
  have hPath : '\x00' ∉ "build.jsonl".toList := by decide
  have hFile : opener "build.jsonl" = .ok text.toUTF8.data.toList := if_pos rfl
  have hRows : Text.Written text.toList
      ["\x7b\"kind\":\"BuildStarted\"\x7d".toList, [' '], ['[', ']'], ['\x7b']] :=
    Text.written_iff.mpr (by decide)
  have hLimits : ∀ entry ∈ filled
      ["\x7b\"kind\":\"BuildStarted\"\x7d".toList, [' '], ['[', ']'], ['\x7b']],
      Json.withinLimits Json.depthLimit entry.text = true := by
    have hShort : ∀ entry ∈ filled
        ["\x7b\"kind\":\"BuildStarted\"\x7d".toList, [' '], ['[', ']'], ['\x7b']],
        entry.text.length ≤ Whole.digitLimit ∧
          entry.text.countP Json.isOpening ≤ Json.depthLimit := by decide
    intro entry hEntry
    obtain ⟨hLength, hOpenings⟩ := hShort entry hEntry
    exact Json.withinLimits_of_le hLength hOpenings
  obtain ⟨hEvents, -, hFault, -⟩ := read_upToFault hPath hFile hRows hLimits
  obtain ⟨fault, reason, hStop, -, hMessage⟩ := hFault ⟨3, ['[', ']']⟩ (by decide +kernel)
  refine ⟨?_, fault, reason, hStop, hMessage⟩
  rw [hEvents]
  decide +kernel

end BuildDigest.EventLog
