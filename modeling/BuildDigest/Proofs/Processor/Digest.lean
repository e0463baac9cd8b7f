import BuildDigest.Processor
import BuildDigest.Proofs.Assembly.Snapshots
import BuildDigest.Proofs.Ledger.Report

/-!
# What a processor makes of events

A processor that analyzes a stream of events gives the snapshots of the ledger
that the events come to. It needs no tree for that, and observers have no part in
it.

* `Processor.digest` — the snapshots after a stream of events.
* `Processor.digest_eq_of_fits`, `Processor.digest_eq` — they are those of the ledger.
* `Analysis.observed_digest` — what they answer is what the entries of the ledger tell.
-/

namespace BuildDigest

namespace Processor

/-- The snapshots that a processor gives after a stream of events. -/
def digest (cwd project : String) (settings : Settings) (observers : List Observer)
    (events : List Event) : Except Fault (List Snapshot) := do
  let p ← start cwd (.text project) settings true observers
  match p.processAll events with
  | (_, some fault) => throw fault
  | (p, none) => p.results

variable {p : Processor} {a a' : Assembly} {events : List Event}

/-- A processor with a tree takes all events if its assembly takes them, whatever its observers
do. -/
theorem processAll_eq (hAssembly : p.assembly = some a) (hSteps : a.steps events = .ok a') :
    ∃ p', p.processAll events = (p', none) ∧ p'.assembly = some a' ∧
      p'.gathering = p.gathering := by
  induction events generalizing p a with
  | nil =>
    cases hSteps
    exact ⟨p, rfl, hAssembly, rfl⟩
  | cons e rest ih =>
    rw [Assembly.steps] at hSteps
    cases hStep : a.step e with
    | error fault =>
      rw [hStep] at hSteps
      cases hSteps
    | ok a₁ =>
      rw [hStep] at hSteps
      have hProcess : p.process e = ({ p.deliver e with assembly := some a₁ }, none) := by
        have hDelivered : (p.deliver e).assembly = some a := hAssembly
        simp only [process, hDelivered, hStep]
      obtain ⟨p', hAll, hAssembly', hGathering⟩ :=
        ih (p := { p.deliver e with assembly := some a₁ }) rfl hSteps
      refine ⟨p', ?_, hAssembly', hGathering⟩
      rw [processAll, hProcess]
      exact hAll

/-- A processor with a tree is at fault where its assembly is. -/
theorem processAll_error {fault : Fault} (hAssembly : p.assembly = some a)
    (hSteps : a.steps events = .error fault) : ∃ p', p.processAll events = (p', some fault) := by
  induction events generalizing p a with
  | nil => cases hSteps
  | cons e rest ih =>
    rw [Assembly.steps] at hSteps
    have hDelivered : (p.deliver e).assembly = some a := hAssembly
    cases hStep : a.step e with
    | error fault' =>
      rw [hStep] at hSteps
      cases hSteps
      refine ⟨p.deliver e, ?_⟩
      simp only [processAll, process, hDelivered, hStep]
    | ok a₁ =>
      rw [hStep] at hSteps
      have hNext : ({ p.deliver e with assembly := some a₁ } : Processor).assembly = some a₁ := rfl
      obtain ⟨p', hAll⟩ := ih hNext hSteps
      refine ⟨p', ?_⟩
      simp only [processAll, process, hDelivered, hStep]
      exact hAll

/-- A processor that only observes takes any events. -/
theorem processAll_of_none (hNone : p.assembly = none) (events : List Event) :
    ∃ p', p.processAll events = (p', none) ∧ p'.assembly = none := by
  induction events generalizing p with
  | nil => exact ⟨p, rfl, hNone⟩
  | cons e rest ih =>
    have hDelivered : (p.deliver e).assembly = none := hNone
    obtain ⟨p', hAll, hStill⟩ := ih hDelivered
    refine ⟨p', ?_, hStill⟩
    simp only [processAll, process, hDelivered]
    exact hAll

/-- The snapshots after a stream of events are those of the tree that it comes to. -/
theorem digest_eq_steps (cwd project : String) (settings : Settings) (observers : List Observer)
    (events : List Event) :
    digest cwd project settings observers events = (do
      let a ← Assembly.steps {} events
      a.snapshots { cwd, project := Path.normalize cwd project, settings }) := by
  have hIdle : (idle cwd (Path.normalize cwd project) settings true observers).assembly =
      some {} := rfl
  show (match (idle cwd (Path.normalize cwd project) settings true observers).processAll events with
    | (_, some fault) => throw fault
    | (p, none) => p.results) = _
  cases hSteps : Assembly.steps {} events with
  | error fault =>
    obtain ⟨p, hAll⟩ := processAll_error hIdle hSteps
    rw [hAll]
    rfl
  | ok a =>
    obtain ⟨p, hAll, hAssembly, hGathering⟩ := processAll_eq hIdle hSteps
    rw [hAll]
    simp only [results, hAssembly, hGathering]
    rfl

/-- The snapshots after a stream of events that fit are those of the ledger that it comes to. -/
theorem digest_eq_of_fits (cwd project : String) (settings : Settings) (observers : List Observer)
    (hFits : ∀ e ∈ events, e.Fits) :
    digest cwd project settings observers events =
      (Ledger.run {} events).snapshots { cwd, project := Path.normalize cwd project, settings } := by
  obtain ⟨a, hSteps, hRepresents⟩ := Assembly.represents_start.steps_of_fits hFits
  rw [digest_eq_steps, hSteps]
  exact hRepresents.snapshots_eq _

/-- The snapshots after events of text fields are those of the ledger. -/
theorem digest_eq (cwd project : String) (settings : Settings) (observers : List Observer)
    (hTextual : ∀ e ∈ events, e.Textual) :
    digest cwd project settings observers events =
      (Ledger.run {} events).snapshots { cwd, project := Path.normalize cwd project, settings } :=
  digest_eq_of_fits cwd project settings observers fun e he => (hTextual e he).fits

end Processor

/-- A processor gives one snapshot for each moniker of the builds that count, and what it answers
is what those builds tell together. -/
theorem Analysis.observed_digest (q : Analysis) (observers : List Observer) (events : List Event)
    (hTextual : ∀ e ∈ events, e.Textual) :
    ∃ snapshots, Processor.digest q.cwd q.path q.settings observers events = .ok snapshots ∧
      snapshots.map Snapshot.observed = q.report (Ledger.run {} events).entries := by
  obtain ⟨snapshots, hSnapshots, hObserved⟩ := q.observed_snapshots (Ledger.run {} events)
  refine ⟨snapshots, ?_, hObserved⟩
  rw [Processor.digest_eq q.cwd q.path q.settings observers hTextual]
  exact hSnapshots

/-- An analysis of a project with the usual settings. -/
def Analysis.usual (path : String) : Analysis where
  cwd := "/"
  path := path
  coreTarget := "CoreCompile"
  compilerTasks := ["Csc"]
  compilerFiles := ["csc.dll", "csc.exe"]
  buildTree := true

/-- A build with a compiler call inside the core target; its moniker is reported late. -/
def oneBuild : List Event :=
  [ { kind := .projectStarted, projectFile := .text "/p/a.csproj" },
    { kind := .targetStarted, targetName := .text "corecompile" },
    { kind := .message, taskName := .text "Csc", commandLine := .text "csc a.cs" },
    { kind := .targetFinished, succeeded := .bool true },
    { kind := .status, properties := [("targetframeworkmoniker", " net8 ")] },
    { kind := .projectFinished, succeeded := .bool true } ]

/-- A build of one framework, with its call inside the core target, gives one snapshot. -/
theorem Analysis.observed_digest_oneBuild :
    (∀ e ∈ oneBuild, e.Textual) ∧
      ∃ snapshots, Processor.digest "/" "/p/a.csproj" (usual "/p/a.csproj").settings [] oneBuild =
          .ok snapshots ∧
        snapshots.map Snapshot.observed = (usual "/p/a.csproj").report (Ledger.run {} oneBuild).entries ∧
        snapshots.map (·.arguments) = [[.positional "csc", .positional "a.cs"]] := by
  have hTextual : ∀ e ∈ oneBuild, e.Textual := by decide
  obtain ⟨snapshots, hDigest, hReport⟩ := (usual "/p/a.csproj").observed_digest [] oneBuild hTextual
  refine ⟨hTextual, snapshots, hDigest, hReport, ?_⟩
  have hArguments := congrArg (List.map (·.arguments)) hReport
  rw [List.map_map] at hArguments
  exact hArguments.trans rfl

end BuildDigest
