import BuildDigest.Proofs.EventLog.FirstFault
import BuildDigest.Proofs.Text.Chunks

/-!
# The faults of a log

A log is read to its end if it is a text all of whose lines are events. If it is not, the
fault is mostly one of the form of the log, or of its place: it tells the path, and the
number of the line where the path could be opened. Three things are no such fault, and are
reported without a place: a path with the character NUL, a line that passes a limit of the
JSON reader, and octets that are no text, unless a line is at fault that is read before
the octets are found to be none.

This is said of paths that are texts of Unicode scalar values, so that each can be written
as octets, and of files that are read to their end once they are opened: an `Opener` gives
all octets of a file or none.

Main definition.
* `rowsRead` — the lines of a file that are read.

Main statements.
* `readOctets_eq` — what the octets of a file yield.
* `rowsRead_prefix` — they are the first lines of the text that the file starts with.
* `read_fault` — when and how reading a log ends.
-/

namespace BuildDigest.EventLog

open Text.Utf8 (decode decodeChunks decode_toUTF8 decode_eq_none_iff decodeChunks_agrees)

/-- The lines that are read of a file: all lines of a text, else the lines that are known to be
finished when the octets are found to be none. -/
def rowsRead (octets : List UInt8) : List (List Char) :=
  match decode octets with
  | (cs, none) => Text.lines cs
  | (_, some _) => Text.settledLines (decodeChunks [] [] octets).1

section

variable {depth : Nat} {octets : List UInt8}

/-- The lines that are read are the first lines of the text that the file starts with, because a
text is settled as far as it was decoded. -/
theorem rowsRead_prefix (octets : List UInt8) :
    rowsRead octets <+: Text.lines (decode octets).1 := by
  unfold rowsRead
  split
  · next cs hDecode => rw [hDecode]
  · next cs fault hDecode => exact Text.settledLines_prefix (decodeChunks_agrees [] [] octets).2

theorem rowsRead_toUTF8 (text : String) :
    rowsRead text.toUTF8.data.toList = Text.lines text.toList := by
  rw [rowsRead, decode_toUTF8]

/-- What the octets of a file yield: the events of the lines read, and the fault of the first line
at fault, else that of the octets. -/
theorem readOctets_eq (depth : Nat) (path : String) (octets : List UInt8) :
    readOctets depth path octets =
      (eventsOf depth (filled (rowsRead octets)),
        ((firstFault? depth (filled (rowsRead octets))).bind (·.fault? depth path)).or
          ((decodeChunks [] [] octets).2.map .undecodable)) := by
  have hAgrees := (decodeChunks_agrees [] [] octets).1
  rw [List.nil_append] at hAgrees
  obtain ⟨cs, stop, hDecode⟩ : ∃ cs stop, decode octets = (cs, stop) := ⟨_, _, rfl⟩
  rw [hDecode] at hAgrees
  cases stop with
  | none =>
    have hSound : (decodeChunks [] [] octets).2 = none := by simpa using hAgrees
    simp only [readOctets, rowsRead, hDecode, hSound, Option.map_none, Option.or_none]
    exact readLines_eq depth path 1 (Text.lines cs)
  | some fault =>
    simp only [readOctets, rowsRead, hDecode, readLines_eq, filled]
    -- Either a line is at fault that is read, or the octets are.
    cases hLine : (firstFault? depth (filledFrom 1
      (Text.settledLines (decodeChunks [] [] octets).1))).bind (·.fault? depth path) with
    | none => rw [Option.none_or]
    | some fault => rw [Option.some_or]

/-- A line at fault that is read is what stops the reading of a file. -/
theorem exists_stops_of_rowsRead (path : String) {entry : Entry}
    (hFirst : firstFault? depth (filled (rowsRead octets)) = some entry) :
    ∃ fault, (readOctets depth path octets).2 = some fault ∧ entry.Stops depth path fault := by
  obtain ⟨fault, hFault, hStops⟩ := exists_stops_of_firstFault? path hFirst
  refine ⟨fault, ?_, hStops⟩
  rw [readOctets_eq, hFault, Option.some_or]

/-- If no line that is read is at fault, the octets may be. -/
theorem readOctets_fault_of_none (path : String)
    (hFirst : firstFault? depth (filled (rowsRead octets)) = none) :
    (readOctets depth path octets).2 = (decodeChunks [] [] octets).2.map .undecodable := by
  simp [readOctets_eq, hFirst]

/-- The octets of a file are decoded to their end exactly if they are those of a text. -/
theorem decodeChunks_eq_none_iff :
    (decodeChunks [] [] octets).2 = none ↔ ∃ text : String, octets = text.toUTF8.data.toList := by
  have hAgrees := (decodeChunks_agrees [] [] octets).1
  rw [List.nil_append] at hAgrees
  rw [← decode_eq_none_iff, ← Option.not_isSome_iff_eq_none, ← Option.not_isSome_iff_eq_none,
    hAgrees]

/-- Reading comes to the end of a file exactly if it is a text all of whose lines are events. -/
theorem readOctets_fault_eq_none_iff {path : String} :
    (readOctets depth path octets).2 = none ↔ ∃ text : String, octets = text.toUTF8.data.toList ∧
      firstFault? depth (filled (Text.lines text.toList)) = none := by
  constructor
  · intro hEnd
    cases hFirst : firstFault? depth (filled (rowsRead octets)) with
    | some entry =>
      obtain ⟨fault, hFault, -⟩ := exists_stops_of_rowsRead path hFirst
      rw [hEnd] at hFault
      cases hFault
    | none =>
      rw [readOctets_fault_of_none path hFirst, Option.map_eq_none_iff] at hEnd
      obtain ⟨text, rfl⟩ := decodeChunks_eq_none_iff.mp hEnd
      rw [rowsRead_toUTF8] at hFirst
      exact ⟨text, rfl, hFirst⟩
  · rintro ⟨text, rfl, hFirst⟩
    have hSound := decodeChunks_eq_none_iff.mpr ⟨text, rfl⟩
    rw [← rowsRead_toUTF8] at hFirst
    rw [readOctets_fault_of_none path hFirst, hSound]
    rfl

/-- The first line at fault of those that are read is the first one of all lines. -/
theorem firstFault?_of_rowsRead {entry : Entry}
    (hFirst : firstFault? depth (filled (rowsRead octets)) = some entry) :
    firstFault? depth (filled (Text.lines (decode octets).1)) = some entry := by
  obtain ⟨more, hLines⟩ := rowsRead_prefix octets
  have hSome : (firstFault? depth (filled (rowsRead octets))).isSome = true := by rw [hFirst]; rfl
  rw [← hLines, filled, filledFrom_append]
  exact (eventsOf_append_of_fault hSome _).2.trans hFirst

/-- A fault of the form is reported with the number of the first line at fault. -/
theorem readOctets_message {path : String} {fault : Fault}
    (hFault : (readOctets depth path octets).2 = some fault) (hFormat : fault.isFormat = true) :
    ∃ entry reason, firstFault? depth (filled (Text.lines (decode octets).1)) = some entry ∧
      fault.message = s!"{path}:{entry.number}: " ++ reason := by
  cases hFirst : firstFault? depth (filled (rowsRead octets)) with
  | some entry =>
    obtain ⟨stop, hStop, hStops⟩ := exists_stops_of_rowsRead path hFirst
    obtain rfl : stop = fault := Option.some.inj (hStop.symm.trans hFault)
    obtain ⟨reason, hMessage⟩ := hStops.message hFormat
    exact ⟨entry, reason, firstFault?_of_rowsRead hFirst, hMessage⟩
  | none =>
    rw [readOctets_fault_of_none path hFirst, Option.map_eq_some_iff] at hFault
    obtain ⟨_, -, rfl⟩ := hFault
    cases hFormat

/-- A fault that is none of the form comes from a line that passes a limit, which then shows in the
line, or from octets that are no text. -/
theorem exists_readOctets_not_isFormat_iff {path : String} :
    (∃ fault, (readOctets depth path octets).2 = some fault ∧ fault.isFormat = false) ↔
      (∃ entry, firstFault? depth (filled (rowsRead octets)) = some entry ∧
        Json.withinLimits depth entry.text = false ∧ Json.Exceeds depth entry.text) ∨
      firstFault? depth (filled (rowsRead octets)) = none ∧
        ¬ ∃ text : String, octets = text.toUTF8.data.toList := by
  cases hFirst : firstFault? depth (filled (rowsRead octets)) with
  | some entry =>
    obtain ⟨stop, hStop, hStops⟩ := exists_stops_of_rowsRead path hFirst
    have hShows : Json.withinLimits depth entry.text = false → Json.Exceeds depth entry.text :=
      Json.exceeds_of_not_withinLimits
    rw [hStop]
    simpa [hStops.isFormat] using hShows
  | none =>
    rw [readOctets_fault_of_none path hFirst, ← decodeChunks_eq_none_iff]
    cases (decodeChunks [] [] octets).2 with
    | none => simp
    | some fault => simp [Fault.isFormat]

end

/-- A path that cannot be opened is reported with the cause. -/
theorem read_of_error {opener : Opener} {path : String} {cause : OpenFault} (depth : Nat)
    (hPath : '\x00' ∉ path.toList) (hOpen : opener path = .error cause) :
    read opener (.text path) depth = ([], some (.unreadable (Folder.pathText path) cause)) := by
  simp only [read, hPath, if_false, hOpen]

/-- A file that is opened is read from its octets. -/
theorem read_of_ok {opener : Opener} {path : String} {octets : List UInt8} (depth : Nat)
    (hPath : '\x00' ∉ path.toList) (hOpen : opener path = .ok octets) :
    read opener (.text path) depth = readOctets depth (Folder.pathText path) octets := by
  simp only [read, hPath, if_false, hOpen]

/-- When and how reading a log ends, however deeply its lines are read. It comes to the end exactly
of a text all of whose lines are events. A fault of the form names the path, and, if the path could
be opened, the first line at fault. Of a path of scalar values whose file is read to its end, only
three things end the reading with another fault: the character NUL in the path, a first fault that
is a line past the limits of the JSON reader, with a run of too many digits or with too many
brackets, and octets that are no text where no line is at fault that is read before. -/
theorem read_fault (opener : Opener) (path : String) (depth : Nat) :
    let result := read opener (.text path) depth
    let shown := Folder.pathText path
    (result.2 = none ↔ '\x00' ∉ path.toList ∧ ∃ text : String,
      opener path = .ok text.toUTF8.data.toList ∧
        firstFault? depth (filled (Text.lines text.toList)) = none) ∧
      (∀ fault, result.2 = some fault → fault.isFormat = true →
        (∃ cause, opener path = .error cause ∧
          fault.message = s!"Cannot read event log {shown}: {cause.message shown}") ∨
        ∃ octets entry reason, opener path = .ok octets ∧
          firstFault? depth (filled (Text.lines (decode octets).1)) = some entry ∧
            fault.message = s!"{shown}:{entry.number}: " ++ reason) ∧
      ((∃ fault, result.2 = some fault ∧ fault.isFormat = false) ↔
        '\x00' ∈ path.toList ∨ ∃ octets, opener path = .ok octets ∧
          ((∃ entry, firstFault? depth (filled (rowsRead octets)) = some entry ∧
              Json.withinLimits depth entry.text = false ∧ Json.Exceeds depth entry.text) ∨
            firstFault? depth (filled (rowsRead octets)) = none ∧
              ¬ ∃ text : String, octets = text.toUTF8.data.toList)) := by
  intro result shown
  by_cases hNull : '\x00' ∈ path.toList
  · have hResult : result = ([], some .embeddedNull) := if_pos hNull
    simp [hResult, hNull, Fault.isFormat]
  · cases hOpen : opener path with
    | error cause =>
      have hResult : result = ([], some (.unreadable shown cause)) :=
        read_of_error depth hNull hOpen
      rw [hResult]
      refine ⟨by simp, ?_, by simp [hNull, Fault.isFormat]⟩
      rintro _ ⟨⟩ -
      exact .inl ⟨cause, rfl, rfl⟩
    | ok octets =>
      have hResult : result = readOctets depth shown octets := read_of_ok depth hNull hOpen
      rw [hResult]
      refine ⟨?_, ?_, ?_⟩
      · simp [readOctets_fault_eq_none_iff, hNull]
      · intro fault hFault hFormat
        obtain ⟨entry, reason, hFirst, hMessage⟩ := readOctets_message hFault hFormat
        exact .inr ⟨octets, entry, reason, rfl, hFirst, hMessage⟩
      · rw [exists_readOctets_not_isFormat_iff]
        simp [hNull]

end BuildDigest.EventLog
