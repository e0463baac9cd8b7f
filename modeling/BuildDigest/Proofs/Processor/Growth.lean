import BuildDigest.Proofs.Assembly.Settled
import BuildDigest.Proofs.Ledger.Finished
import BuildDigest.Proofs.Processor.Digest

/-!
# Results only grow

When a stream of events goes on, the parts of the build that are closed stay as they
are, and every moniker that was given is given again. Only its success can change,
once, when a later build of the moniker fails.

* `Node.IsClosedBy` — a part that finished, or that the end of the build closes.
* `Snapshot.Outlive` — what becomes of snapshots.
* `Assembly.Represents.kept_of_isClosedBy` — a closed part stays as it is.
* `Analysis.processAll_continued` — the result.
-/

namespace BuildDigest

/-- A part of a build is closed when it finished, and when the end of the build comes next. -/
def Node.IsClosedBy (n : Node) (later : List Event) : Prop :=
  n.kind.isPart = true ∧
    (n.finished.holds = true ∨ ∃ e rest, later = e :: rest ∧ e.kind = .buildFinished)

/-- The monikers of snapshots are there again in later ones, where they have succeeded as before or
no longer. -/
structure Snapshot.Outlive (snapshots later : List Snapshot) : Prop where
  moniker : ∀ s ∈ snapshots, ∃ s' ∈ later, s'.moniker = s.moniker
  succeeded : ∀ s ∈ snapshots, ∀ s' ∈ later, s'.moniker = s.moniker →
    s'.succeeded = s.succeeded ∨ s.succeeded = .bool true ∧ s'.succeeded = .bool false

namespace Assembly

variable {a a' : Assembly} {l : Ledger} {first later : List Event} {j : Nat} {n : Node}

/-- A closed part stays as it is. -/
theorem Represents.kept_of_isClosedBy (h : a.Represents l) (hLive : a.Live)
    (hTextual : ∀ e ∈ later, e.Textual) (hSteps : a.steps later = .ok a')
    (hn : a.tree.nodes[j]? = some n) (hClosed : n.IsClosedBy later) : a.tree.Kept a'.tree j := by
  obtain ⟨hPart, hFinished | ⟨e, rest, rfl, hEnd⟩⟩ := hClosed
  · exact h.kept_steps hTextual hSteps (isLogged_of_isPart hn hPart)
      (h.closed_of_finished hLive hn hPart hFinished)
  · -- the end of the build closes the part, and the other events come after it
    rw [List.forall_mem_cons] at hTextual
    have hStep : a.step e = .ok (a.endBuild e) := by
      rw [Assembly.step, hEnd]
    rw [Assembly.steps, hStep] at hSteps
    obtain ⟨hKept, hOut⟩ := h.kept_endBuild e hn hPart
    have hLogged := isLogged_of_isPart (hKept.node.trans hn) hPart
    exact hKept.trans ((h.endBuild e).kept_steps hTextual.2 hSteps hLogged hOut)

end Assembly

namespace Analysis

variable (q : Analysis)

/-- Snapshots outlive more events, since what they answer is what the ledger tells. -/
theorem outlive_of_observed {l : Ledger} (h : l.Pending) (later : List Event)
    {snapshots snapshots' : List Snapshot}
    (hSnapshots : snapshots.map Snapshot.observed = q.report l.entries)
    (hSnapshots' : snapshots'.map Snapshot.observed = q.report (l.run later).entries) :
    Snapshot.Outlive snapshots snapshots' := by
  have hReport : ∀ s ∈ snapshots, s.observed ∈ q.report l.entries := fun s hs =>
    hSnapshots ▸ List.mem_map_of_mem hs
  refine ⟨fun s hs => ?_, fun s hs s' hs' hSame => ?_⟩
  · obtain ⟨o, ho, hMoniker⟩ := (report_run h later (hReport s hs)).1
    rw [← hSnapshots'] at ho
    obtain ⟨s', hs', rfl⟩ := List.mem_map.mp ho
    exact ⟨s', hs', hMoniker⟩
  · have hLater : s'.observed ∈ q.report (l.run later).entries :=
      hSnapshots' ▸ List.mem_map_of_mem hs'
    exact (report_run h later (hReport s hs)).2 s'.observed hLater hSame

/-- When a stream goes on, no event is at fault, the parts that are closed by then stay as they
are with all that is filed and logged below them, and the snapshots given by then are given again,
none with a success that it did not have. -/
theorem processAll_continued (observers : List Observer) (first later : List Event)
    (hTextual : ∀ e ∈ first ++ later, e.Textual) :
    ∃ p₀ p p' a a' snapshots snapshots',
      Processor.start q.cwd (.text q.path) q.settings true observers = .ok p₀ ∧
      p₀.processAll first = (p, none) ∧ p.assembly = some a ∧ p.results = .ok snapshots ∧
      p₀.processAll (first ++ later) = (p', none) ∧ p'.assembly = some a' ∧
      p'.results = .ok snapshots' ∧
      (∀ j n, a.tree.nodes[j]? = some n → n.IsClosedBy later → a.tree.Kept a'.tree j) ∧
      Snapshot.Outlive snapshots snapshots' := by
  obtain ⟨hFirst, hLater⟩ := List.forall_mem_append.mp hTextual
  obtain ⟨a, hSteps, hRepresents⟩ := Assembly.represents_start.steps hFirst
  obtain ⟨a', hMore, hRepresents'⟩ := hRepresents.steps hLater
  have hAll : Assembly.steps {} (first ++ later) = .ok a' :=
    (Assembly.steps_append hSteps later).trans hMore
  have hIdle : (Processor.idle q.cwd (Path.normalize q.cwd q.path) q.settings true
      observers).assembly = some {} := rfl
  obtain ⟨p, hProcess, hAssembly, hGathering⟩ := Processor.processAll_eq hIdle hSteps
  obtain ⟨p', hProcess', hAssembly', hGathering'⟩ := Processor.processAll_eq hIdle hAll
  obtain ⟨snapshots, hSnapshots, hObserved⟩ := q.observed_snapshots (Ledger.run {} first)
  obtain ⟨snapshots', hSnapshots', hObserved'⟩ :=
    q.observed_snapshots ((Ledger.run {} first).run later)
  refine ⟨_, p, p', a, a', snapshots, snapshots', rfl, hProcess, hAssembly, ?_, hProcess',
    hAssembly', ?_, ?_, ?_⟩
  · rw [Processor.results, hAssembly, hGathering]
    exact (hRepresents.snapshots_eq q.gathering).trans hSnapshots
  · rw [Processor.results, hAssembly', hGathering']
    exact (hRepresents'.snapshots_eq q.gathering).trans hSnapshots'
  · have hLive := Assembly.represents_start.live_steps hFirst hSteps Assembly.live_start
    exact fun j n hn hClosed => hRepresents.kept_of_isClosedBy hLive hLater hMore hn hClosed
  · exact q.outlive_of_observed (Ledger.pending_empty.run first) later hObserved hObserved'

/-- A build that finished, and one that is left open. -/
def leftOpen : List Event :=
  oneBuild ++
    [ { kind := .projectStarted, projectFile := .text "/p/a.csproj",
        properties := [("TargetFrameworkMoniker", "net8")] } ]

/-- The end of the build, and a build that fails after it. -/
def afterEnd : List Event :=
  [ { kind := .buildFinished, succeeded := .bool true },
    { kind := .projectStarted, projectFile := .text "/p/a.csproj",
      properties := [("TargetFrameworkMoniker", "net8")] },
    { kind := .projectFinished, succeeded := .bool false } ]

/-- A build that finished, one that the end of the build closes, and a build of the same moniker
that fails after that. -/
theorem processAll_continued_afterEnd :
    (∀ e ∈ leftOpen ++ afterEnd, e.Textual) ∧
      ∃ p₀ p p' a a' snapshots snapshots',
        Processor.start "/" (.text "/p/a.csproj") (usual "/p/a.csproj").settings true [] = .ok p₀ ∧
        p₀.processAll leftOpen = (p, none) ∧ p.assembly = some a ∧ p.results = .ok snapshots ∧
        p₀.processAll (leftOpen ++ afterEnd) = (p', none) ∧ p'.assembly = some a' ∧
        p'.results = .ok snapshots' ∧
        a.tree.Kept a'.tree 1 ∧ a.tree.Kept a'.tree 6 ∧
        snapshots.map (·.succeeded) = [.bool true] ∧
        snapshots'.map (·.succeeded) = [.bool false] := by
  have hTextual : ∀ e ∈ leftOpen ++ afterEnd, e.Textual := by decide
  refine ⟨hTextual, ?_⟩
  obtain ⟨p₀, p, p', a, a', snapshots, snapshots', hStart, hFirst, hAssembly, hResults, hAll,
    hAssembly', hResults', hKept, -⟩ :=
    processAll_continued (usual "/p/a.csproj") [] leftOpen afterEnd hTextual
  refine ⟨p₀, p, p', a, a', snapshots, snapshots', hStart, hFirst, hAssembly, hResults, hAll,
    hAssembly', hResults', ?_⟩
  cases hStart
  cases hFirst
  cases hAssembly
  cases hAll
  have hBefore : (Except.ok snapshots : Except Fault (List Snapshot)).map
      (·.map (·.succeeded)) = .ok [.bool true] := by
    rw [← hResults]
    rfl
  have hAfter : (Except.ok snapshots' : Except Fault (List Snapshot)).map
      (·.map (·.succeeded)) = .ok [.bool false] := by
    rw [← hResults']
    rfl
  exact ⟨hKept 1 _ rfl ⟨rfl, Or.inl rfl⟩, hKept 6 _ rfl ⟨rfl, Or.inr ⟨_, _, rfl, rfl⟩⟩,
    Except.ok.inj hBefore, Except.ok.inj hAfter⟩

end Analysis

end BuildDigest
