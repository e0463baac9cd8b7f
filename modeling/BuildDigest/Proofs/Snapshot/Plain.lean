import BuildDigest.Proofs.Assembly.Texts
import BuildDigest.Snapshot.Facts

/-!
# Plain snapshots can be shown, but for one fact

The snapshots that a processor gathers are those of its project, and their
properties are texts. So of all that is asked of a snapshot only one fact may
fail: the framework, when its version starts with digits that make no number.

* `Snapshot.Plain` — what holds of the snapshots of a project.
* `Processor.plain_results` — the snapshots of a processor are plain.
* `Snapshot.Plain.toValue_error` — why a plain snapshot cannot be shown.
-/

namespace BuildDigest

namespace NameMap

variable {α : Type}

/-- What is recorded under a name is new, and all other entries stood there before. -/
theorem mem_entries_record {m : NameMap α} {name : String} {value : α} {e : String × α}
    (he : e ∈ (m.record name value).entries) : e = (name, value) ∨ e ∈ m.entries := by
  obtain ⟨f, hf, rfl⟩ := List.mem_map.mp he
  rcases Ordered.mem_putEntries hf with rfl | hOld
  · exact Or.inl rfl
  · exact Or.inr (List.mem_map_of_mem hOld)

/-- What is read under a name stands in an entry, in some spelling. -/
theorem mem_entries_of_get? {m : NameMap α} {name : String} {value : α}
    (h : m.get? name = some value) : ∃ spelling, (spelling, value) ∈ m.entries := by
  obtain ⟨e, he, rfl⟩ := Option.map_eq_some_iff.mp h
  exact ⟨e.1, List.mem_map_of_mem (Ordered.mem_of_get? he)⟩

/-- All that recording pairs adds are values of these pairs. -/
theorem mem_entries_recordPairs {m : NameMap Value} {pairs : List (Value × Value)}
    {e : String × Value} (he : e ∈ (m.recordPairs pairs).1.entries) :
    e ∈ m.entries ∨ ∃ p ∈ pairs, e.2 = p.2 := by
  induction pairs generalizing m with
  | nil => exact Or.inl he
  | cons p rest ih =>
    rw [recordPairs] at he
    split at he
    · exact Or.inl he
    · rcases ih he with hOld | ⟨q, hq, hValue⟩
      · rcases mem_entries_record hOld with rfl | hOld
        · exact Or.inr ⟨p, List.mem_cons_self .., rfl⟩
        · exact Or.inl hOld
      · exact Or.inr ⟨q, List.mem_cons_of_mem p hq, hValue⟩

end NameMap

-- ---------------------------------------------------------------------------
-- What is gathered
-- ---------------------------------------------------------------------------

namespace Snapshot

/-- A snapshot of the project with a path, whose properties are texts. -/
structure Plain (key : String) (s : Snapshot) : Prop where
  project : s.project = .text key
  properties : ∀ e ∈ s.properties.entries, ∃ text, e.2 = .text text

variable {key : String} {s s' : Snapshot}

theorem Plain.of_eq (h : s.Plain key) (hProject : s'.project = s.project)
    (hProperties : s'.properties = s.properties) : s'.Plain key where
  project := hProject.trans h.project
  properties := by
    rw [hProperties]
    exact h.properties

/-- A new snapshot is plain: it has no properties. -/
theorem plain_start {moniker : Value} {files : List Value}
    (hStart : start (.text key) moniker files = .ok s) : s.Plain key := by
  obtain ⟨_, _, rfl⟩ := Except.map_eq_ok.mp hStart
  exact ⟨rfl, nofun⟩

/-- Recording texts keeps a snapshot plain. -/
theorem Plain.recordProperties (h : s.Plain key) {properties : List (Value × Value)}
    (hTexts : ∀ p ∈ properties, ∃ text, p.2 = .text text) :
    (s.recordProperties properties).1.Plain key where
  project := h.project
  properties := by
    intro e he
    rcases NameMap.mem_entries_recordPairs he with hOld | ⟨p, hp, hValue⟩
    · exact h.properties e hOld
    · obtain ⟨text, hText⟩ := hTexts p hp
      exact ⟨text, hValue.trans hText⟩

/-- Recording items does not touch the properties. -/
theorem Plain.recordGroups (h : s.Plain key) {groups : List (Value × List Item)}
    (hGroups : s.recordGroups groups = .ok s') : s'.Plain key := by
  induction groups generalizing s with
  | nil =>
    cases hGroups
    exact h
  | cons g rest ih =>
    obtain ⟨itemType, items⟩ := g
    rw [Snapshot.recordGroups] at hGroups
    split at hGroups
    · cases hGroups
    · refine ih ?_ hGroups
      exact h.of_eq rfl rfl

/-- Recording a compiler call does not touch the properties. -/
theorem Plain.recordInvocation (h : s.Plain key) {line : Value} {core : Bool}
    (hLine : s.recordInvocation line core = .ok s') : s'.Plain key := by
  unfold Snapshot.recordInvocation at hLine
  split at hLine
  · split at hLine
    · cases hLine
    · split at hLine
      · cases hLine
        exact h
      · cases hLine
        exact h.of_eq rfl rfl
  · cases hLine
    exact h

end Snapshot

namespace Gathering

variable {g : Gathering} {t : Tree} {n : Node} {s s' : Snapshot}
  {snapshots snapshots' : Ordered String Snapshot}

/-- Recording all compiler calls of a project keeps its snapshot plain. -/
theorem plain_reportInvocations {lines : List Node} (h : s.Plain g.project)
    (hReport : g.reportInvocations t n s lines = .ok s') : s'.Plain g.project := by
  induction lines generalizing s with
  | nil =>
    cases hReport
    exact h
  | cons line rest ih =>
    obtain ⟨core, _, hReport⟩ := Except.bind_eq_ok.mp hReport
    obtain ⟨s₁, hLine, hReport⟩ := Except.bind_eq_ok.mp hReport
    exact ih (h.recordInvocation hLine) hReport

/-- The snapshot that a project is credited to is new or plain already. -/
theorem plain_credited {moniker : String}
    (hAll : ∀ e ∈ snapshots.entries, e.2.Plain g.project)
    (hCredited : g.credited snapshots moniker n = .ok s) : s.Plain g.project := by
  unfold credited at hCredited
  split at hCredited
  · next s₀ hGet =>
    cases hCredited
    exact (hAll _ (Ordered.mem_of_get? hGet)).of_eq rfl rfl
  · obtain ⟨s₀, hStart, rfl⟩ := Except.map_eq_ok.mp hCredited
    exact (Snapshot.plain_start hStart).of_eq rfl rfl

/-- A project feeds only texts into the properties of its snapshot, because the tree stores
texts. -/
theorem plain_feed (hTree : t.ValuesText) (h : s.Plain g.project)
    (hFeed : g.feed t n s = .ok s') : s'.Plain g.project := by
  obtain ⟨properties, hProperties, hFeed⟩ := Except.bind_eq_ok.mp hFeed
  have hRecorded := h.recordProperties (hTree.properties hProperties)
  cases hRecord : s.recordProperties properties with
  | mk s₁ fault =>
    rw [hRecord] at hRecorded
    simp only [hRecord] at hFeed
    cases fault with
    | some fault => cases hFeed
    | none =>
      obtain ⟨groups, _, hFeed⟩ := Except.bind_eq_ok.mp hFeed
      obtain ⟨s₂, hGroups, hFeed⟩ := Except.bind_eq_ok.mp hFeed
      obtain ⟨lines, _, hFeed⟩ := Except.bind_eq_ok.mp hFeed
      exact plain_reportInvocations (hRecorded.recordGroups hGroups) hFeed

/-- Visiting a project keeps all snapshots plain. -/
theorem plain_visit (hTree : t.ValuesText)
    (hAll : ∀ e ∈ snapshots.entries, e.2.Plain g.project)
    (hVisit : g.visit t snapshots n = .ok snapshots') :
    ∀ e ∈ snapshots'.entries, e.2.Plain g.project := by
  unfold visit at hVisit
  split at hVisit
  · obtain ⟨moniker, _, hVisit⟩ := Except.bind_eq_ok.mp hVisit
    split at hVisit
    · cases hVisit
      exact hAll
    · obtain ⟨s, hCredited, hVisit⟩ := Except.bind_eq_ok.mp hVisit
      obtain ⟨s', hFeed, hVisit⟩ := Except.bind_eq_ok.mp hVisit
      cases hVisit
      have hFed := plain_feed hTree (plain_credited hAll hCredited) hFeed
      intro e he
      rcases Ordered.mem_putEntries he with rfl | hOld
      · exact hFed
      · exact hAll e hOld
  · cases hVisit
    exact hAll

/-- Visiting all projects keeps all snapshots plain. -/
theorem plain_visitAll (hTree : t.ValuesText) {ns : List Node}
    (hAll : ∀ e ∈ snapshots.entries, e.2.Plain g.project)
    (hVisit : g.visitAll t snapshots ns = .ok snapshots') :
    ∀ e ∈ snapshots'.entries, e.2.Plain g.project := by
  induction ns generalizing snapshots with
  | nil =>
    cases hVisit
    exact hAll
  | cons n rest ih =>
    rw [visitAll] at hVisit
    split at hVisit
    · cases hVisit
    · next hFirst => exact ih (plain_visit hTree hAll hFirst) hVisit

end Gathering

/-- The snapshots of a processor are those of its project. -/
theorem Processor.plain_results {p : Processor} (h : p.ValuesText) {snapshots : List Snapshot}
    (hResults : p.results = .ok snapshots) :
    ∀ s ∈ snapshots, s.Plain p.gathering.project := by
  unfold results at hResults
  split at hResults
  · cases hResults
    exact nofun
  · next a hAssembly =>
    obtain ⟨m, hVisit, rfl⟩ := Except.map_eq_ok.mp hResults
    intro s hs
    obtain ⟨e, he, rfl⟩ := List.mem_map.mp hs
    refine Gathering.plain_visitAll (h a hAssembly) ?_ hVisit e he
    intro e he
    cases he

-- ---------------------------------------------------------------------------
-- What is shown
-- ---------------------------------------------------------------------------

namespace Framework

/-- A short name fails only for a number that cannot be read. -/
theorem shortName_error {identifier version : String} {f : Fault}
    (h : shortName identifier version = .error f) : ∃ w, f = .whole w := by
  unfold shortName named at h
  split at h
  · cases h
  · split at h
    · split at h
      · next hRenamed =>
        cases h
        unfold isRenamed at hRenamed
        simp only at hRenamed
        split at hRenamed
        · cases hRenamed
        · split at hRenamed
          · cases hRenamed
          · cases hRenamed
            exact ⟨_, rfl⟩
      · cases h
      · cases h
    · cases h

/-- What a list of one value gives is what the value gives. -/
theorem gather_singleton (names : Value → Except Fault (List String)) (v : Value) :
    gather names (.list [v]) = names v := by
  show ([v].mapM names).map List.flatten = names v
  rw [List.mapM_cons, List.mapM_nil]
  cases names v with
  | error fault => rfl
  | ok found => exact congrArg Except.ok (List.append_nil found)

variable {single identifier version : Value} {f : Fault}

/-- A textual value names a single framework without fault. -/
theorem singleOf_ne_error (h : single.IsTextual) : singleOf single ≠ .error f := by
  unfold singleOf
  split
  · next hHolds =>
    obtain ⟨text, rfl, _⟩ := h.exists_text hHolds
    exact nofun
  · exact nofun

/-- An identifier and a version that are texts have a name, unless the version is at fault. -/
theorem nameOf_error (hIdentifier : identifier.IsTextual) (hVersion : version.IsTextual)
    (h : nameOf identifier version = .error f) : ∃ w, f = .whole w := by
  unfold nameOf at h
  split at h
  · next hHolds =>
    rw [Bool.and_eq_true] at hHolds
    obtain ⟨i, rfl, _⟩ := hIdentifier.exists_text hHolds.1
    obtain ⟨v, rfl, _⟩ := hVersion.exists_text hHolds.2
    rcases Except.bind_eq_error.mp h with hText | ⟨_, _, h⟩
    · cases hText
    · split at h
      · cases h
      · rcases Except.bind_eq_error.mp h with hText | ⟨_, _, h⟩
        · cases hText
        · split at h
          · cases h
          · rcases Except.bind_eq_error.mp h with hName | ⟨_, _, h⟩
            · exact shortName_error hName
            · cases h
  · cases h

/-- The names of a project that declares texts, unless its version is at fault. -/
theorem candidates_error (hSingle : single.IsTextual) (hIdentifier : identifier.IsTextual)
    (hVersion : version.IsTextual)
    (h : candidates .null (.list [single]) (.list [.list [identifier, version]]) = .error f) :
    ∃ w, f = .whole w := by
  have hPair : nameOfPair (.list [identifier, version]) = nameOf identifier version := rfl
  unfold candidates at h
  rcases Except.bind_eq_error.mp h with hListed | ⟨_, _, h⟩
  · cases hListed
  · rcases Except.bind_eq_error.mp h with hFound | ⟨_, _, h⟩
    · rw [gather_singleton] at hFound
      exact absurd hFound (singleOf_ne_error hSingle)
    · split at h
      · rcases Except.bind_eq_error.mp h with hNamed | ⟨_, _, h⟩
        · rw [gather_singleton, hPair] at hNamed
          exact nameOf_error hIdentifier hVersion hNamed
        · cases h
      · cases h

end Framework

namespace Snapshot

variable {key : String} {s : Snapshot}

/-- A property of a plain snapshot is a text, or absent. -/
theorem Plain.propertyValue_isTextual (h : s.Plain key) (name : String) :
    (s.propertyValue name).IsTextual := by
  unfold propertyValue
  cases hProperty : s.property? name with
  | none => trivial
  | some v =>
    obtain ⟨spelling, hMem⟩ := NameMap.mem_entries_of_get? hProperty
    obtain ⟨text, rfl⟩ := h.properties _ hMem
    trivial

/-- A snapshot of a project has an identifier. -/
theorem Plain.exists_guid (h : s.Plain key) : ∃ guid, s.guid = .ok guid := by
  have hProject : Guid.ofGiven s.project = .ok (Guid.ofPath key) := by
    rw [h.project]
    rfl
  have hTextual := h.propertyValue_isTextual "ProjectGuid"
  unfold guid
  generalize s.propertyValue "ProjectGuid" = declared at hTextual
  dsimp only
  split
  · next hHolds =>
    obtain ⟨text, rfl, _⟩ := hTextual.exists_text hHolds
    rw [Value.asText_text]
    dsimp only
    split
    · exact ⟨_, rfl⟩
    · exact ⟨_, hProject⟩
  · exact ⟨_, hProject⟩

/-- A snapshot of a project has a framework or none, unless its version is at fault. -/
theorem Plain.targetFramework_error (h : s.Plain key) {f : Fault}
    (hFramework : s.targetFramework = .error f) : ∃ w, f = .whole w :=
  Framework.candidates_error (h.propertyValue_isTextual _) (h.propertyValue_isTextual _)
    (h.propertyValue_isTextual _) (Except.map_eq_error.mp hFramework)

/-- The paths of a snapshot of a project are without fault. -/
theorem Plain.resolvedAll_ne_error (h : s.Plain key) (cwd : String) (paths : List String)
    {f : Fault} : Path.resolvedAll cwd s.project paths ≠ .error f := by
  rw [h.project, Path.resolvedAll_text]
  exact nofun

/-- A snapshot of a project is shown, unless the version of its framework is at fault. -/
theorem Plain.toValue_error (h : s.Plain key) {cwd : String} {f : Fault}
    (hValue : s.toValue cwd = .error f) : s.targetFramework = .error f ∧ ∃ w, f = .whole w := by
  obtain ⟨guid, hGuid⟩ := h.exists_guid
  rcases Except.bind_eq_error.mp hValue with hFail | ⟨_, _, hValue⟩
  · rw [hGuid] at hFail
    cases hFail
  rcases Except.bind_eq_error.mp hValue with hFail | ⟨_, _, hValue⟩
  · exact ⟨hFail, h.targetFramework_error hFail⟩
  rcases Except.bind_eq_error.mp hValue with hFail | ⟨_, _, hValue⟩
  · exact absurd hFail (h.resolvedAll_ne_error cwd _)
  rcases Except.bind_eq_error.mp hValue with hFail | ⟨_, _, hValue⟩
  · exact absurd hFail (h.resolvedAll_ne_error cwd _)
  cases hValue

/-- The value of a snapshot has the project of the snapshot. -/
theorem field_project_of_toValue {cwd : String} {v : Value} (hValue : s.toValue cwd = .ok v) :
    ∃ fields, v = .object fields ∧ Value.field fields "projectFilePath" = s.project := by
  obtain ⟨guid, _, hValue⟩ := Except.bind_eq_ok.mp hValue
  obtain ⟨framework, _, hValue⟩ := Except.bind_eq_ok.mp hValue
  obtain ⟨sources, _, hValue⟩ := Except.bind_eq_ok.mp hValue
  obtain ⟨projects, _, hValue⟩ := Except.bind_eq_ok.mp hValue
  cases hValue
  exact ⟨_, rfl, rfl⟩

end Snapshot

end BuildDigest
