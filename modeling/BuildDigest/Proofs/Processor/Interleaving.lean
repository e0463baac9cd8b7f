import BuildDigest.Proofs.Ledger.Shared
import BuildDigest.Proofs.Processor.Nesting

/-!
# Interleaved builds

The events of two builds of a project, for different frameworks, may reach a
processor interleaved. As long as events come while parts of their builds are open,
the builds are given as if they had come one after the other. A processor cannot
tell apart what comes otherwise, since events do not say to which build they belong.

* `Analysis.report_perm` — the order of the builds with different monikers does not matter.
* `Analysis.digest_interleaved` — interleaved builds that are kept apart.
* `Analysis.digest_crossed` — builds that are not.
-/

namespace BuildDigest

open Ledger (Entry Shared)

namespace Analysis

variable {q : Analysis} {entries entries' : List Entry} {moniker : String}

-- ---------------------------------------------------------------------------
-- Groups of builds
-- ---------------------------------------------------------------------------

theorem nodup_monikers (q : Analysis) (entries : List Entry) : (q.monikers entries).Nodup := by
  obtain ⟨_, _, hGathered⟩ := q.exists_gathered entries
  rw [← hGathered.keys]
  exact hGathered.nodup

/-- What is told depends on the builds of each moniker, in their order, up to the order of the
monikers. -/
theorem report_perm (h : ∀ moniker, q.group entries moniker = q.group entries' moniker) :
    (q.report entries).Perm (q.report entries') := by
  have hMonikers : (q.monikers entries).Perm (q.monikers entries') := by
    rw [List.perm_ext_iff_of_nodup (q.nodup_monikers entries) (q.nodup_monikers entries')]
    intro moniker
    rw [mem_monikers, mem_monikers, h]
  have hAnswers : q.report entries =
      (q.monikers entries).map fun moniker => q.answer moniker (q.group entries' moniker) :=
    List.map_congr_left fun moniker _ => by rw [h]
  rw [hAnswers]
  exact hMonikers.map _

/-- Entries one after the other are grouped one after the other. -/
theorem group_append (q : Analysis) (entries entries' : List Entry) (moniker : String) :
    q.group (entries ++ entries') moniker = q.group entries moniker ++ q.group entries' moniker :=
  List.filter_append ..

/-- Where one source alone has builds of a moniker, the others do not matter. -/
theorem group_map_snd {ι : Type} [DecidableEq ι] {es : List (ι × Entry)} {x : ι}
    (h : ∀ y, y ≠ x → q.group (Marked.own y es) moniker = []) :
    q.group (es.map (·.2)) moniker = q.group (Marked.own x es) moniker := by
  rw [group, group, Marked.own, List.filter_map, List.filter_map, List.filter_filter]
  refine congrArg _ (List.filter_congr fun e he => ?_)
  obtain ⟨y, b⟩ := e
  by_cases hy : y = x
  · simp [hy]
  · -- a build of another source is of no build of the moniker
    have hNot : (q.counts b && b.moniker == moniker) = false := by
      have hNone := List.filter_eq_nil_iff.mp (h y hy) b (Marked.mem_own.mpr he)
      rwa [Bool.not_eq_true] at hNone
    rw [Function.comp_apply, hNot, Bool.false_and]

-- ---------------------------------------------------------------------------
-- Builds that are kept apart
-- ---------------------------------------------------------------------------

/-- A build comes to the same after a build as alone. -/
theorem entries_run_append {first second : List Event} (hFirst : Event.isBuild first = true)
    (hSecond : Event.isBuild second = true) :
    (Ledger.run {} (first ++ second)).entries =
      (Ledger.run {} first).entries ++ (Ledger.run {} second).entries := by
  have hFrames : (Ledger.run {} first).frames = [] := (Ledger.run_build hFirst {}).2
  have hAlone := (Ledger.run_build hSecond {}).1
  have hAfter := (Ledger.run_build hSecond (Ledger.run {} first)).1
  rw [hFrames] at hAfter
  rw [Ledger.run_append, hAfter, hAlone]
  rfl

/-- What is given for one stream has no moniker in common with what is given for the other. -/
theorem group_eq_nil_or {first second : List Event} {alone alone' : List Snapshot}
    (hAlone : alone.map Snapshot.observed = q.report (Ledger.run {} first).entries)
    (hAlone' : alone'.map Snapshot.observed = q.report (Ledger.run {} second).entries)
    (hApart : ∀ s ∈ alone, ∀ s' ∈ alone', s.moniker ≠ s'.moniker) (moniker : String) :
    q.group (Ledger.run {} first).entries moniker = [] ∨
      q.group (Ledger.run {} second).entries moniker = [] := by
  have hGiven : ∀ (entries : List Entry) (given : List Snapshot),
      given.map Snapshot.observed = q.report entries → q.group entries moniker ≠ [] →
      ∃ s ∈ given, s.moniker = .text moniker := by
    intro entries given hReport hGroup
    have hMem : q.answer moniker (q.group entries moniker) ∈ q.report entries :=
      List.mem_map.mpr ⟨moniker, q.mem_monikers.mpr hGroup, rfl⟩
    rw [← hReport] at hMem
    obtain ⟨s, hs, hSame⟩ := List.mem_map.mp hMem
    exact ⟨s, hs, congrArg Observation.moniker hSame⟩
  by_contra hBoth
  rw [not_or] at hBoth
  obtain ⟨s, hs, hMoniker⟩ := hGiven _ _ hAlone hBoth.1
  obtain ⟨s', hs', hMoniker'⟩ := hGiven _ _ hAlone' hBoth.2
  exact hApart s hs s' hs' (hMoniker.trans hMoniker'.symm)

/-- Where two builds share no moniker, the entries that both of them make are grouped as those of
the one and then the other. -/
theorem group_run_eq {first second : List Event} (hFirst : Event.isBuild first = true)
    (hSecond : Event.isBuild second = true)
    (hNone : q.group (Ledger.run {} first).entries moniker = [] ∨
      q.group (Ledger.run {} second).entries moniker = [])
    {events : List (Bool × Event)} (hOwn : Marked.own true events = first)
    (hOwn' : Marked.own false events = second) (hPaired : Event.paired [] events = true)
    (hNamed : ∀ e ∈ events, e.2.namesTask = true) :
    q.group (Ledger.run {} (events.map (·.2))).entries moniker =
      q.group (Ledger.run {} (first ++ second)).entries moniker := by
  have hSound : ({} : Shared Bool).Sound := fun _ _ hMem => nomatch hMem
  obtain ⟨s, hPlain, hOnly⟩ := Shared.exists_run hSound hPaired hNamed
  have hEntries : (Ledger.run {} (events.map (·.2))).entries = s.entries.map (·.2) :=
    congrArg Ledger.entries hPlain.symm
  have hTrue : Marked.own true s.entries = (Ledger.run {} first).entries :=
    hOwn ▸ congrArg Ledger.entries (hOnly true)
  have hFalse : Marked.own false s.entries = (Ledger.run {} second).entries :=
    hOwn' ▸ congrArg Ledger.entries (hOnly false)
  rw [hEntries, entries_run_append hFirst hSecond, group_append]
  rcases hNone with hNone | hNone
  · rw [hNone, List.nil_append, ← hFalse]
    refine group_map_snd fun y hy => ?_
    rw [Bool.eq_true_of_not_eq_false hy, hTrue, hNone]
  · rw [hNone, List.append_nil, ← hTrue]
    refine group_map_snd fun y hy => ?_
    rw [Bool.eq_false_of_not_eq_true hy, hFalse, hNone]

/-- Two builds whose events come interleaved, each event while parts of its build are open, are
given as the one after the other, up to the order of what is given. -/
theorem digest_interleaved (q : Analysis) (observers : List Observer) {first second : List Event}
    (hFirst : Event.isBuild first = true) (hSecond : Event.isBuild second = true)
    {alone alone' : List Snapshot}
    (hAlone : Processor.digest q.cwd q.path q.settings observers first = .ok alone)
    (hAlone' : Processor.digest q.cwd q.path q.settings observers second = .ok alone')
    (hApart : ∀ s ∈ alone, ∀ s' ∈ alone', s.moniker ≠ s'.moniker)
    {events : List (Bool × Event)} (hOwn : Marked.own true events = first)
    (hOwn' : Marked.own false events = second) (hPaired : Event.paired [] events = true)
    (hNamed : ∀ e ∈ events, e.2.namesTask = true) (hTextual : ∀ e ∈ events, e.2.Textual) :
    ∃ snapshots both,
      Processor.digest q.cwd q.path q.settings observers (events.map (·.2)) = .ok snapshots ∧
      Processor.digest q.cwd q.path q.settings observers (first ++ second) = .ok both ∧
      (snapshots.map Snapshot.observed).Perm (both.map Snapshot.observed) := by
  have hStream : ∀ e ∈ events.map (·.2), e.Textual := List.forall_mem_map.mpr hTextual
  have hTextual₁ : ∀ e ∈ first, e.Textual := fun e he =>
    hTextual (true, e) (Marked.mem_own.mp (hOwn ▸ he))
  have hTextual₂ : ∀ e ∈ second, e.Textual := fun e he =>
    hTextual (false, e) (Marked.mem_own.mp (hOwn' ▸ he))
  obtain ⟨snapshots, hSnapshots, hObserved⟩ := q.observed_digest observers _ hStream
  obtain ⟨both, hBoth, hObserved'⟩ := q.observed_digest observers (first ++ second)
    (List.forall_mem_append.mpr ⟨hTextual₁, hTextual₂⟩)
  obtain ⟨_, hGiven, hReport⟩ := q.observed_digest observers first hTextual₁
  obtain ⟨_, hGiven', hReport'⟩ := q.observed_digest observers second hTextual₂
  rw [hAlone] at hGiven
  rw [hAlone'] at hGiven'
  cases hGiven
  cases hGiven'
  refine ⟨snapshots, both, hSnapshots, hBoth, ?_⟩
  rw [hObserved, hObserved']
  exact report_perm fun moniker => group_run_eq hFirst hSecond
    (group_eq_nil_or hReport hReport' hApart moniker) hOwn hOwn' hPaired hNamed

/-- A build of a project for a framework, with one compiler call. -/
def frameworkBuild (moniker line : String) : List Event :=
  [ { kind := .projectStarted, projectFile := .text "/p/a.csproj",
      properties := [("TargetFrameworkMoniker", moniker)] },
    { kind := .message, taskName := .text "Csc", commandLine := .text line },
    { kind := .projectFinished, succeeded := .bool true } ]

/-- Events of two builds in a given order, `true` for an event of the first. -/
def interleave : List Bool → List Event → List Event → List (Bool × Event)
  | true :: order, e :: first, second => (true, e) :: interleave order first second
  | false :: order, first, e :: second => (false, e) :: interleave order first second
  | _, _, _ => []

/-- One build inside another. -/
def nested : List (Bool × Event) :=
  interleave [true, false, false, false, true, true] (frameworkBuild "net8" "csc a.cs")
    (frameworkBuild "net6" "csc b.cs")

/-- One build inside another is given as if they had come one after the other. -/
theorem digest_interleaved_nested :
    Event.isBuild (frameworkBuild "net8" "csc a.cs") = true ∧
      Event.isBuild (frameworkBuild "net6" "csc b.cs") = true ∧
      Marked.own true nested = frameworkBuild "net8" "csc a.cs" ∧
      Marked.own false nested = frameworkBuild "net6" "csc b.cs" ∧
      Event.paired [] nested = true ∧ (∀ e ∈ nested, e.2.namesTask = true) ∧
      (∀ e ∈ nested, e.2.Textual) ∧
      ∃ alone alone' snapshots both,
        Processor.digest "/" "/p/a.csproj" (usual "/p/a.csproj").settings []
          (frameworkBuild "net8" "csc a.cs") = .ok alone ∧
        Processor.digest "/" "/p/a.csproj" (usual "/p/a.csproj").settings []
          (frameworkBuild "net6" "csc b.cs") = .ok alone' ∧
        (∀ s ∈ alone, ∀ s' ∈ alone', s.moniker ≠ s'.moniker) ∧
        Processor.digest "/" "/p/a.csproj" (usual "/p/a.csproj").settings []
          (nested.map (·.2)) = .ok snapshots ∧
        Processor.digest "/" "/p/a.csproj" (usual "/p/a.csproj").settings []
          (frameworkBuild "net8" "csc a.cs" ++ frameworkBuild "net6" "csc b.cs") = .ok both ∧
        (snapshots.map Snapshot.observed).Perm (both.map Snapshot.observed) := by
  have hFirst : Event.isBuild (frameworkBuild "net8" "csc a.cs") = true := rfl
  have hSecond : Event.isBuild (frameworkBuild "net6" "csc b.cs") = true := rfl
  have hPaired : Event.paired [] nested = true := by decide
  have hNamed : ∀ e ∈ nested, e.2.namesTask = true := by decide
  have hTextual : ∀ e ∈ nested, e.2.Textual := by decide
  obtain ⟨alone, hAlone, hReport⟩ := (usual "/p/a.csproj").observed_digest []
    (frameworkBuild "net8" "csc a.cs") (by decide)
  obtain ⟨alone', hAlone', hReport'⟩ := (usual "/p/a.csproj").observed_digest []
    (frameworkBuild "net6" "csc b.cs") (by decide)
  have hMonikers : (alone.map Snapshot.observed).map (·.moniker) = [.text "net8"] := by
    rw [hReport]
    rfl
  have hMonikers' : (alone'.map Snapshot.observed).map (·.moniker) = [.text "net6"] := by
    rw [hReport']
    rfl
  have hApart : ∀ s ∈ alone, ∀ s' ∈ alone', s.moniker ≠ s'.moniker := by
    intro s hs s' hs' hSame
    have hMoniker : s.moniker ∈ [Value.text "net8"] :=
      hMonikers ▸ List.mem_map_of_mem (List.mem_map_of_mem hs)
    have hMoniker' : s'.moniker ∈ [Value.text "net6"] :=
      hMonikers' ▸ List.mem_map_of_mem (List.mem_map_of_mem hs')
    rw [List.mem_singleton.mp hMoniker, List.mem_singleton.mp hMoniker'] at hSame
    exact absurd (Value.text.inj hSame) (by decide)
  obtain ⟨snapshots, both, hSnapshots, hBoth, hPerm⟩ :=
    (usual "/p/a.csproj").digest_interleaved [] hFirst hSecond hAlone hAlone' hApart rfl rfl hPaired
      hNamed hTextual
  exact ⟨hFirst, hSecond, rfl, rfl, hPaired, hNamed, hTextual, alone, alone', snapshots, both,
    hAlone, hAlone', hApart, hSnapshots, hBoth, hPerm⟩

/-- Two builds that start one after the other, and end in the same order. -/
def crossed : List (Bool × Event) :=
  interleave [true, false, true, true, false, false] (frameworkBuild "net8" "csc a.cs")
    (frameworkBuild "net6" "csc b.cs")

/-- What a snapshot tells of the compiler. -/
def compiled (o : Observation) : Value × List CommandLine.Argument :=
  (o.moniker, o.arguments)

/-- Of builds that are crossed each is given the compiler call of the other. -/
theorem digest_crossed :
    Event.isBuild (frameworkBuild "net8" "csc a.cs") = true ∧
      Event.isBuild (frameworkBuild "net6" "csc b.cs") = true ∧
      ((frameworkBuild "net8" "csc a.cs").filter (·.startsBuildOf "/" "/p/a.csproj")).map
        (·.properties) = [[("TargetFrameworkMoniker", "net8")]] ∧
      ((frameworkBuild "net6" "csc b.cs").filter (·.startsBuildOf "/" "/p/a.csproj")).map
        (·.properties) = [[("TargetFrameworkMoniker", "net6")]] ∧
      Marked.own true crossed = frameworkBuild "net8" "csc a.cs" ∧
      Marked.own false crossed = frameworkBuild "net6" "csc b.cs" ∧
      (∀ e ∈ crossed, e.2.namesTask = true) ∧ (∀ e ∈ crossed, e.2.Textual) ∧
      ¬ ∃ snapshots both,
        Processor.digest "/" "/p/a.csproj" (usual "/p/a.csproj").settings []
          (crossed.map (·.2)) = .ok snapshots ∧
        Processor.digest "/" "/p/a.csproj" (usual "/p/a.csproj").settings []
          (frameworkBuild "net8" "csc a.cs" ++ frameworkBuild "net6" "csc b.cs") = .ok both ∧
        (snapshots.map Snapshot.observed).Perm (both.map Snapshot.observed) := by
  refine ⟨rfl, rfl, rfl, rfl, rfl, rfl, by decide, by decide, ?_⟩
  rintro ⟨snapshots, both, hSnapshots, hBoth, hPerm⟩
  have hCrossed : (Except.ok snapshots : Except Fault (List Snapshot)).map
      (List.map (compiled ∘ Snapshot.observed)) =
        .ok [(.text "net8", [.positional "csc", .positional "b.cs"]),
          (.text "net6", [.positional "csc", .positional "a.cs"])] := by
    rw [← hSnapshots]
    rfl
  have hApart : (Except.ok both : Except Fault (List Snapshot)).map
      (List.map (compiled ∘ Snapshot.observed)) =
        .ok [(.text "net8", [.positional "csc", .positional "a.cs"]),
          (.text "net6", [.positional "csc", .positional "b.cs"])] := by
    rw [← hBoth]
    rfl
  have hSame := hPerm.map compiled
  rw [List.map_map, List.map_map, Except.ok.inj hCrossed, Except.ok.inj hApart] at hSame
  have hMem := hSame.mem_iff (a := (.text "net8", [.positional "csc", .positional "a.cs"]))
  simp at hMem

end Analysis

end BuildDigest
