import BuildDigest.EventLog.Reader
import BuildDigest.Proofs.Outcome
import BuildDigest.Proofs.Text.Lines
import BuildDigest.Proofs.Text.Utf8
import Mathlib.Data.List.Forall2

/-!
# Logs line by line

Only the lines of a log that are not blank are read, but all of them are counted. When
these lines are written values, reading the log is decoding the values in order: it
yields the same events, and it stops at the same value for the same reason, which it
reports with the number of the line.

Main statements.
* `readLines_of_decodeAll_ok` — a log of decodable values yields their events.
* `readLines_of_decodeAll_error` — otherwise reading stops at the first value that is no event.
* `read_text` — a log is read by its lines.
-/

namespace BuildDigest

namespace Event

variable {v : Value} {es : List Value} {events : List Event} {fault : Fault}

/-- A list is decoded only if its first value and the others are. -/
theorem decodeAll_cons_ok (h : decodeAll (v :: es) = .ok events) :
    ∃ event more, ofValue v = .ok event ∧ decodeAll es = .ok more ∧ events = event :: more := by
  obtain ⟨event, hEvent, h⟩ := Except.bind_eq_ok.mp h
  obtain ⟨more, hMore, h⟩ := Except.bind_eq_ok.mp h
  exact ⟨event, more, hEvent, hMore, (Except.ok.inj h).symm⟩

/-- A list is refused for its first value, or for a later one behind a first one that is an
event. -/
theorem decodeAll_cons_error (h : decodeAll (v :: es) = .error fault) :
    ofValue v = .error fault ∨ ∃ event, ofValue v = .ok event ∧ decodeAll es = .error fault := by
  rcases Except.bind_eq_error.mp h with hFirst | ⟨event, hEvent, h⟩
  · exact .inl hFirst
  · rcases Except.bind_eq_error.mp h with hRest | ⟨_, _, h⟩
    · exact .inr ⟨event, hEvent, hRest⟩
    · cases h

/-- What is decoded with others is decoded by itself. -/
theorem ofValue_of_decodeAll (h : decodeAll es = .ok events) (hv : v ∈ es) :
    ∃ event, ofValue v = .ok event := by
  induction es generalizing events with
  | nil => cases hv
  | cons u es ih =>
    obtain ⟨event, more, hEvent, hMore, -⟩ := decodeAll_cons_ok h
    rcases List.mem_cons.mp hv with rfl | hv
    · exact ⟨event, hEvent⟩
    · exact ih hMore hv

/-- What is decoded with others has a value that it is decoded from. -/
theorem exists_ofValue_of_decodeAll (h : decodeAll es = .ok events) {e : Event} (he : e ∈ events) :
    ∃ v, ofValue v = .ok e := by
  induction es generalizing events with
  | nil =>
    cases h
    cases he
  | cons v es ih =>
    obtain ⟨event, more, hEvent, hMore, rfl⟩ := decodeAll_cons_ok h
    rcases List.mem_cons.mp he with rfl | he
    · exact ⟨v, hEvent⟩
    · exact ih hMore he

/-- Lists that are decoded are decoded in a row. -/
theorem decodeAll_append {us : List Value} {more : List Event} (h : decodeAll es = .ok events)
    (hMore : decodeAll us = .ok more) : decodeAll (es ++ us) = .ok (events ++ more) := by
  induction es generalizing events with
  | nil =>
    cases h
    exact hMore
  | cons v es ih =>
    obtain ⟨event, rest, hEvent, hRest, rfl⟩ := decodeAll_cons_ok h
    rw [List.cons_append, decodeAll, hEvent, Except.ok_bind, ih hRest]
    rfl

/-- Events that are read back one by one are read back in a list. -/
theorem decodeAll_map_toValue (h : ∀ e ∈ events, ofValue e.toValue = .ok e) :
    decodeAll (events.map toValue) = .ok events := by
  induction events with
  | nil => rfl
  | cons e rest ih =>
    rw [List.forall_mem_cons] at h
    rw [List.map_cons, decodeAll, h.1, Except.ok_bind, ih h.2]
    rfl

end Event

namespace EventLog

/-- A line that is not blank, stripped, with its number among all lines. -/
structure Entry where
  number : Nat
  text : List Char
  deriving DecidableEq, Repr

/-- The lines that are not blank; all lines are numbered from a number on. -/
def filledFrom (number : Nat) (rows : List (List Char)) : List Entry :=
  ((rows.zipIdx number).map fun row => ⟨row.2, Text.stripChars row.1⟩).filter
    fun entry => !entry.text.isEmpty

/-- The lines of a log that are not blank. -/
def filled (rows : List (List Char)) : List Entry :=
  filledFrom 1 rows

/-- Lines are written values, in this order and no deeper than they are read. -/
def Holds (depth : Nat) (entries : List Entry) (es : List Value) : Prop :=
  List.Forall₂ (fun entry v => Json.readChars depth entry.text = .ok v) entries es

-- ---------------------------------------------------------------------------
-- One line more
-- ---------------------------------------------------------------------------

section

variable {number : Nat} {line : List Char} {rows : List (List Char)}

/-- A blank line is counted and left out. -/
theorem filledFrom_cons_blank (hBlank : (Text.stripChars line).isEmpty = true) :
    filledFrom number (line :: rows) = filledFrom (number + 1) rows := by
  simp only [filledFrom, List.zipIdx_cons, List.map_cons, List.filter_cons, hBlank, Bool.not_true,
    Bool.false_eq_true, if_false]

/-- A line that is not blank is kept without the blanks at its ends. -/
theorem filledFrom_cons_filled (hFilled : ¬ (Text.stripChars line).isEmpty = true) :
    filledFrom number (line :: rows) =
      ⟨number, Text.stripChars line⟩ :: filledFrom (number + 1) rows := by
  simp only [filledFrom, List.zipIdx_cons, List.map_cons, List.filter_cons, hFilled, Bool.not_false,
    if_true]

end

/-- A line that is a value is read as an event or refused at its place. -/
theorem readLine_of_readChars {depth : Nat} {path : String} {number : Nat} {line : List Char}
    {v : Value} (hRead : Json.readChars depth line = .ok v) :
    readLine depth path number line = (Event.ofValue v).mapError (.badEvent path number) := by
  rw [readLine, hRead]
  cases hEvent : Event.ofValue v <;> simp only [hEvent] <;> rfl

-- ---------------------------------------------------------------------------
-- All lines
-- ---------------------------------------------------------------------------

section

variable {depth : Nat} {path : String} {number : Nat} {rows : List (List Char)} {es : List Value}

/-- A log of decodable values yields their events. -/
theorem readLines_of_decodeAll_ok (hHolds : Holds depth (filledFrom number rows) es)
    {events : List Event} (hDecode : Event.decodeAll es = .ok events) :
    readLines depth path number rows = (events, none) := by
  induction rows generalizing number es events with
  | nil =>
    obtain rfl := List.forall₂_nil_left_iff.mp hHolds
    exact congrArg (·, none) (Except.ok.inj hDecode)
  | cons line rows ih =>
    rw [readLines]
    by_cases hBlank : (Text.stripChars line).isEmpty = true
    · rw [filledFrom_cons_blank hBlank] at hHolds
      rw [if_pos hBlank, ih hHolds hDecode]
    · rw [filledFrom_cons_filled hBlank] at hHolds
      obtain ⟨v, more, hRead, hMore, rfl⟩ := List.forall₂_cons_left_iff.mp hHolds
      obtain ⟨event, events, hEvent, hLater, rfl⟩ := Event.decodeAll_cons_ok hDecode
      rw [if_neg hBlank, readLine_of_readChars hRead, hEvent, ih hMore hLater]
      rfl

/-- Reading stops at the first value that is no event. -/
theorem readLines_of_decodeAll_error (path : String)
    (hHolds : Holds depth (filledFrom number rows) es) {fault : Event.Fault}
    (hDecode : Event.decodeAll es = .error fault) :
    ∃ k entry v, (filledFrom number rows)[k]? = some entry ∧ es[k]? = some v ∧
      (∀ u ∈ es.take k, ∃ event, Event.ofValue u = .ok event) ∧
      Event.ofValue v = .error fault ∧
      (readLines depth path number rows).2 = some (.badEvent path entry.number fault) := by
  induction rows generalizing number es with
  | nil =>
    obtain rfl := List.forall₂_nil_left_iff.mp hHolds
    cases hDecode
  | cons line rows ih =>
    rw [readLines]
    by_cases hBlank : (Text.stripChars line).isEmpty = true
    · rw [filledFrom_cons_blank hBlank] at hHolds ⊢
      rw [if_pos hBlank]
      exact ih hHolds hDecode
    · rw [filledFrom_cons_filled hBlank] at hHolds ⊢
      obtain ⟨v, more, hRead, hMore, rfl⟩ := List.forall₂_cons_left_iff.mp hHolds
      rw [if_neg hBlank, readLine_of_readChars hRead]
      -- Either this value is the first that is no event, or the first one comes later.
      rcases Event.decodeAll_cons_error hDecode with hHere | ⟨event, hEvent, hLater⟩
      · refine ⟨0, _, v, rfl, rfl, List.forall_mem_nil _, hHere, ?_⟩
        rw [hHere]
        rfl
      · obtain ⟨k, entry, u, hEntry, hValue, hBefore, hFault, hStop⟩ := ih hMore hLater
        refine ⟨k + 1, entry, u, hEntry, hValue, ?_, hFault, ?_⟩
        · rw [List.take_succ_cons, List.forall_mem_cons]
          exact ⟨⟨event, hEvent⟩, hBefore⟩
        · rw [hEvent]
          exact hStop

end

/-- A log that holds a text is read by the lines of this text. -/
theorem read_text {opener : Opener} {path text : String} {rows : List (List Char)} (depth : Nat)
    (hPath : '\x00' ∉ path.toList) (hFile : opener path = .ok text.toUTF8.data.toList)
    (hRows : Text.Written text.toList rows) :
    read opener (.text path) depth = readLines depth (Folder.pathText path) 1 rows := by
  simp only [read, hPath, if_false, hFile, readOctets, Text.Utf8.decode_toUTF8, hRows.lines_eq]

end EventLog

end BuildDigest
