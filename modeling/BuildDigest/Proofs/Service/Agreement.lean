import BuildDigest.Proofs.EventLog.Lines
import BuildDigest.Service.Call

/-!
# The two analyses agree

An analysis may be given its events as a list of values or as a log that holds these
values, each on a line of its own. Both ways decode all events before anything else
happens, and go on alike from there; so they differ only in how they report a value that
is no event.

Main statement.
* `perform_log_eq_events` — a log and the list of its values have the same results, and leave the
  same service.
-/

namespace BuildDigest.Service

variable {s : Service} {opener : Opener} {session : Session} {project : Value}
  {path text : String} {rows : List (List Char)} {es : List Value}

/-- Events that are decoded are analysed. -/
theorem perform_events_of_decodeAll_ok {events : List Event}
    (hDecode : Event.decodeAll es = .ok events) :
    s.perform opener session (.analyzeEvents project (.list es) .null) =
      s.analyzeDecoded session project s.settings.buildTree.holds events := by
  simp only [perform, analyzeEvents, Value.elements_list, hDecode, wantsTree]

/-- A list with a value that is no event is refused before anything else happens. -/
theorem perform_events_of_decodeAll_error {fault : Event.Fault}
    (hDecode : Event.decodeAll es = .error fault) :
    s.perform opener session (.analyzeEvents project (.list es) .null) =
      s.refuse (.event fault) := by
  simp only [perform, analyzeEvents, Value.elements_list, hDecode]

/-- The events of a log that is read to its end are analysed. -/
theorem perform_log_of_read_ok {events : List Event}
    (hRead : EventLog.read opener (.text path) s.depth = (events, none)) :
    s.perform opener session (.analyzeLog project (.text path)) =
      s.analyzeDecoded session project s.settings.buildTree.holds events := by
  simp only [perform, analyzeLog, hRead]

/-- A log that is not read to its end is refused, and what was read of it is not looked at. -/
theorem perform_log_of_read_fault {fault : EventLog.Fault}
    (hRead : (EventLog.read opener (.text path) s.depth).2 = some fault) :
    s.perform opener session (.analyzeLog project (.text path)) = s.refuse (.log fault) := by
  simp only [perform, analyzeLog]
  split
  · next hFault =>
    rw [hFault] at hRead
    rw [Option.some.inj hRead]
  · next hNone =>
    rw [hNone] at hRead
    cases hRead

/-- A log whose lines, unless they are blank, hold values, and the list of these values: both
analyses leave the same service, and one has data to answer when the other has the same data. If
all values are events they answer the same. If not, the first value that is no event is refused,
with the number of its line in front of the text when it comes from the log. -/
theorem perform_log_eq_events (s : Service) (opener : Opener) (session : Session)
    (project : Value) {path text : String} {rows : List (List Char)} {es : List Value}
    (hPath : '\x00' ∉ path.toList) (hFile : opener path = .ok text.toUTF8.data.toList)
    (hRows : Text.Written text.toList rows)
    (hHolds : EventLog.Holds s.depth (EventLog.filled rows) es) :
    let byLog := s.perform opener session (.analyzeLog project (.text path))
    let byEvents := s.perform opener session (.analyzeEvents project (.list es) .null)
    byLog.1 = byEvents.1 ∧ byLog.2.notified = byEvents.2.notified ∧
      (∀ data, byLog.2.answer = .ok data ↔ byEvents.2.answer = .ok data) ∧
      ((∀ v ∈ es, ∃ event, Event.ofValue v = .ok event) → byLog = byEvents) ∧
      ((∃ v ∈ es, ∃ fault, Event.ofValue v = .error fault) →
        ∃ k entry v fault, (EventLog.filled rows)[k]? = some entry ∧ es[k]? = some v ∧
          (∀ u ∈ es.take k, ∃ event, Event.ofValue u = .ok event) ∧
          Event.ofValue v = .error fault ∧ byEvents.1 = s ∧
          answerValue byEvents.2.answer =
            .object [("success", .bool false), ("error", .text fault.message)] ∧
          answerValue byLog.2.answer =
            .object [("success", .bool false),
              ("error", .text (s!"{Folder.pathText path}:{entry.number}: " ++ fault.message))]) := by
  have hRead := EventLog.read_text s.depth hPath hFile hRows
  intro byLog byEvents
  cases hDecode : Event.decodeAll es with
  | ok events =>
    have hSame : byLog = byEvents := by
      rw [EventLog.readLines_of_decodeAll_ok hHolds hDecode] at hRead
      exact (perform_log_of_read_ok hRead).trans (perform_events_of_decodeAll_ok hDecode).symm
    rw [hSame]
    refine ⟨rfl, rfl, fun _ => Iff.rfl, fun _ => rfl, ?_⟩
    rintro ⟨v, hv, fault, hFault⟩
    obtain ⟨event, hEvent⟩ := Event.ofValue_of_decodeAll hDecode hv
    rw [hEvent] at hFault
    cases hFault
  | error fault =>
    obtain ⟨k, entry, v, hEntry, hValue, hBefore, hFault, hStop⟩ :=
      EventLog.readLines_of_decodeAll_error (Folder.pathText path) hHolds hDecode
    have hLog : byLog = s.refuse (.log (.badEvent (Folder.pathText path) entry.number fault)) :=
      perform_log_of_read_fault (hRead ▸ hStop)
    have hEvents : byEvents = s.refuse (.event fault) := perform_events_of_decodeAll_error hDecode
    rw [hLog, hEvents]
    refine ⟨rfl, rfl, fun _ => ⟨nofun, nofun⟩, ?_, ?_⟩
    · intro hAll
      obtain ⟨event, hEvent⟩ := hAll v (List.mem_of_getElem? hValue)
      rw [hEvent] at hFault
      cases hFault
    · intro _
      exact ⟨k, entry, v, fault, hEntry, hValue, hBefore, hFault, rfl, rfl, rfl⟩

/-- A folder with one log. -/
def oneLog (text : String) : Opener := fun path =>
  if path = "build.jsonl" then .ok text.toUTF8.data.toList else .error .missing

/-- The analysis of the log of a folder for a project. -/
def byLog (text : String) : Service × Reply :=
  (start "/work" {}).perform (oneLog text) .listening
    (.analyzeLog (.text "App.csproj") (.text "build.jsonl"))

/-- The analysis of a list of values for the project, in the same folder. -/
def byEvents (text : String) (es : List Value) : Service × Reply :=
  (start "/work" {}).perform (oneLog text) .listening
    (.analyzeEvents (.text "App.csproj") (.list es) .null)

/-- Two logs and the lists of their values. The first one has an event, a blank line and a list,
where the lines end in three ways: the list is refused. The second one is a finished build of the
project: both ways answer its one snapshot. -/
theorem log_and_events_answer :
    (let text := "\x7b\"kind\":\"BuildStarted\"\x7d\r\n \r[]\n"
      let es := [.object [("kind", .text "BuildStarted")], .list []]
      (byLog text).1 = (byEvents text es).1 ∧
        answerValue (byEvents text es).2.answer = .object
          [("success", .bool false), ("error", .text "Event must be an object, got list")] ∧
        answerValue (byLog text).2.answer = .object
          [ ("success", .bool false),
            ("error", .text "build.jsonl:3: Event must be an object, got list") ]) ∧
      let text := "\x7b\"kind\":\"ProjectStarted\",\"projectFile\":\"App.csproj\"," ++
        "\"properties\":\x7b\"TargetFrameworkMoniker\":\"net8.0\"\x7d\x7d\n" ++
        "\x7b\"kind\":\"ProjectFinished\",\"succeeded\":true\x7d"
      let es := [
        .object [("kind", .text "ProjectStarted"), ("projectFile", .text "App.csproj"),
          ("properties", .object [("TargetFrameworkMoniker", .text "net8.0")])],
        .object [("kind", .text "ProjectFinished"), ("succeeded", .bool true)] ]
      byLog text = byEvents text es ∧
        ∃ snapshot, (byLog text).2.answer = .ok (.list [snapshot]) := by
  have hPath : '\x00' ∉ "build.jsonl".toList := by decide
  constructor
  · intro text es
    have hFile : oneLog text "build.jsonl" = .ok text.toUTF8.data.toList := if_pos rfl
    have hRows : Text.Written text.toList
        ["\x7b\"kind\":\"BuildStarted\"\x7d".toList, [' '], ['[', ']']] :=
      Text.written_iff.mpr (by decide)
    have hFilled : EventLog.filled
        ["\x7b\"kind\":\"BuildStarted\"\x7d".toList, [' '], ['[', ']']] =
          [⟨1, "\x7b\"kind\":\"BuildStarted\"\x7d".toList⟩, ⟨3, ['[', ']']⟩] := by decide
    have hHolds : EventLog.Holds Json.depthLimit (EventLog.filled
        ["\x7b\"kind\":\"BuildStarted\"\x7d".toList, [' '], ['[', ']']]) es := by
      rw [hFilled]
      -- The reader is evaluated on characters, since `rfl` does not open a text.
      simp only [String.reduceToList]
      exact .cons rfl (.cons rfl .nil)
    obtain ⟨hService, -, -, -, hFaulty⟩ := perform_log_eq_events (start "/work" {}) (oneLog text)
      .listening (.text "App.csproj") hPath hFile hRows hHolds
    obtain ⟨k, entry, v, fault, hEntry, hValue, -, hFault, -, hEvents, hLog⟩ :=
      hFaulty ⟨.list [], List.mem_cons_of_mem _ (List.mem_singleton_self _), _, rfl⟩
    -- The first value is an event, so it is the second one that is refused.
    rcases k with _ | _ | k
    · cases hValue
      cases hFault
    · cases hValue
      cases hFault
      cases hEntry
      exact ⟨hService, hEvents, hLog⟩
    · cases hValue
  · intro text es
    have hFile : oneLog text "build.jsonl" = .ok text.toUTF8.data.toList := if_pos rfl
    have hRows : Text.Written text.toList (Text.lines text.toList) :=
      Text.written_iff.mpr rfl
    have hFilled : EventLog.filled (Text.lines text.toList) =
        [ ⟨1, ("\x7b\"kind\":\"ProjectStarted\",\"projectFile\":\"App.csproj\"," ++
            "\"properties\":\x7b\"TargetFrameworkMoniker\":\"net8.0\"\x7d\x7d").toList⟩,
          ⟨2, "\x7b\"kind\":\"ProjectFinished\",\"succeeded\":true\x7d".toList⟩ ] := by
      decide +kernel
    have hHolds : EventLog.Holds Json.depthLimit (EventLog.filled (Text.lines text.toList)) es := by
      rw [hFilled]
      simp only [String.reduceAppend, String.reduceToList]
      exact .cons rfl (.cons rfl .nil)
    obtain ⟨-, -, hData, hAll, -⟩ := perform_log_eq_events (start "/work" {}) (oneLog text)
      .listening (.text "App.csproj") hPath hFile hRows hHolds
    have hEvents : ∃ snapshot, (byEvents text es).2.answer = .ok (.list [snapshot]) := ⟨_, rfl⟩
    obtain ⟨snapshot, hSnapshot⟩ := hEvents
    refine ⟨hAll ?_, snapshot, (hData _).mpr hSnapshot⟩
    exact List.forall_mem_cons.mpr ⟨⟨_, rfl⟩, List.forall_mem_singleton.mpr ⟨_, rfl⟩⟩

end BuildDigest.Service
