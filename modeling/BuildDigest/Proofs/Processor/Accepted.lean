import BuildDigest.Proofs.EventLog.Lines
import BuildDigest.Proofs.Processor.Digest

/-!
# Accepted events that an analysis cannot take

Decoding checks no text field of an event. An analysis uses some of them as texts: the file
of a project when the project starts, names of targets and tasks and command lines only when
it gives its results. Events that fit never make it fail. An accepted event that does not
fit makes it fail in a short build of events that do fit, since a value that is no text was
to be used as one.

Main definitions.
* `Probe.before`, `Probe.after` — a short build around an event.

Main statements.
* `Probe.digest_eq` — the short build around an event that does not fit has no snapshots.
* `Analysis.digest_of_fits` — events that fit have some.
* `Analysis.digest_of_decodeAll` — both, of accepted values.
-/

namespace BuildDigest

-- ---------------------------------------------------------------------------
-- Values that are used as texts
-- ---------------------------------------------------------------------------

/-- A value that is no text cannot be used as one. -/
theorem Value.asText_error {v : Value} (use : Use) (h : v.kind ≠ .text) :
    v.asText use = .error (.unusable v.kind use) := by
  cases v with
  | text s => exact absurd rfl h
  | null | bool _ | int _ | float _ | list _ | object _ => rfl

/-- A task whose name is no text cannot be told from the compiler tasks. -/
theorem Settings.isCompilerTask_error {task : Value} (s : Settings) (h : ¬ task.ReadsAsText) :
    s.isCompilerTask task = .error (.unusable task.kind .lower) := by
  obtain ⟨hGiven, hKind⟩ := Value.not_readsAsText_iff.mp h
  rw [isCompilerTask, if_pos hGiven, Value.asText_error .lower hKind]

/-- A command line that is no text cannot be recorded. -/
theorem Snapshot.recordInvocation_error {line : Value} (s : Snapshot) (core : Bool)
    (h : ¬ line.ReadsAsText) :
    s.recordInvocation line core = .error (.unusable line.kind .strip) := by
  obtain ⟨hGiven, hKind⟩ := Value.not_readsAsText_iff.mp h
  rw [recordInvocation, if_pos hGiven, Value.asText_error .strip hKind]

/-- A project whose file is no text cannot start. -/
theorem Assembly.startProject_error {a : Assembly} {e : Event} (h : ¬ e.projectFile.ReadsAsText) :
    a.startProject e = .error (.unusable e.projectFile.kind .replace) := by
  obtain ⟨hGiven, hKind⟩ := Value.not_readsAsText_iff.mp h
  rw [startProject, Value.orEmpty_of_holds hGiven, Value.asText_error .replace hKind]

-- ---------------------------------------------------------------------------
-- Results that cannot be given
-- ---------------------------------------------------------------------------

namespace Gathering

variable {g : Gathering} {t : Tree} {n : Node} {fault : Fault}

/-- One command line is recorded for its project. -/
theorem reportInvocations_singleton (g : Gathering) (t : Tree) (n line : Node) (s : Snapshot) :
    g.reportInvocations t n s [line] = (do
      let core ← g.isCore t n line
      s.recordInvocation line.value core) :=
  bind_congr fun core => bind_pure (s.recordInvocation line.value core)

/-- If the compiler calls of a build cannot be reported, the build has no snapshot. -/
theorem feed_error {properties : List (Value × Value)} {groups : List (Value × List Item)}
    (hProperties : t.properties (.int n.index) = .ok properties)
    (hNames : ∀ s : Snapshot, (s.recordProperties properties).2 = none)
    (hGroups : t.itemGroups (.int n.index) = .ok groups)
    (hTypes : ∀ s : Snapshot, ∃ s', s.recordGroups groups = .ok s')
    (hCalls : ∀ s, (do
      let lines ← g.invocations t n
      g.reportInvocations t n s lines) = .error fault) (s : Snapshot) :
    g.feed t n s = .error fault := by
  obtain ⟨s₁, hRecord⟩ : ∃ s₁, s.recordProperties properties = (s₁, none) :=
    ⟨_, Prod.ext rfl (hNames s)⟩
  obtain ⟨s₂, hItems⟩ := hTypes s₁
  simp only [feed, hProperties, hRecord, hGroups, hItems, Except.ok_bind]
  exact hCalls s₂

/-- If the only build of a tree counts and has no snapshot, there are none. -/
theorem snapshots_error {a : Assembly} {moniker : String}
    (hVisit : a.tree.visit .project = [n])
    (hWanted : (g.isWanted n && n.finished.holds) = true)
    (hMoniker : monikerOf a.tree n = .ok moniker) (hGiven : moniker ≠ "")
    (hStart : ∃ s, g.credited .empty moniker n = .ok s)
    (hFeed : ∀ s, g.feed a.tree n s = .error fault) : a.snapshots g = .error fault := by
  obtain ⟨s, hStart⟩ := hStart
  have hHere : g.visit a.tree .empty n = .error fault := by
    rw [visit, hWanted, if_pos rfl, hMoniker, Except.ok_bind, if_neg hGiven, hStart]
    show (do
      let s ← g.feed a.tree n s
      return Ordered.put .empty moniker s) = _
    rw [hFeed]
    rfl
  rw [Assembly.snapshots, hVisit, visitAll, hHere]
  rfl

end Gathering

-- ---------------------------------------------------------------------------
-- A short build around an event
-- ---------------------------------------------------------------------------

namespace Probe

/-- A build of a project starts and reports a moniker. -/
def opening : Event :=
  { kind := .projectStarted, projectFile := .text "/p/a.csproj",
    properties := [("TargetFrameworkMoniker", "net8")] }

/-- A compiler call that belongs to the innermost open task. -/
def call : Event :=
  { kind := .message, commandLine := .text "csc a.cs" }

def target : Event :=
  { kind := .targetStarted }

def closing : Event :=
  { kind := .projectFinished }

/-- The events in front of an event. The start of a project stands alone. -/
def before (e : Event) : List Event :=
  match e.kind with
  | .projectStarted => []
  | .targetStarted | .taskStarted => [opening]
  | _ => [opening, target]

/-- The events behind an event: a compiler call if it opens something, and what closes the
build. -/
def after (e : Event) : List Event :=
  match e.kind with
  | .projectStarted => []
  | .targetStarted | .taskStarted => [call, closing, closing]
  | _ => [closing, closing]

/-- An analysis of the project to which the task of an event is a compiler task. -/
def analysis (e : Event) : Analysis :=
  { Analysis.usual "/p/a.csproj" with compilerTasks := [e.taskName.plain] }

/-- The project of the build, with what stands in it. -/
def project (inside : List Nat) (finished : Bool) : Node :=
  { kind := .project, index := 1, parent := .int 0, name := .text "a.csproj",
    projectFile := .text "/p/a.csproj", children := 2 :: inside, finished := .bool finished }

/-- A target or a task in the project, with what stands in it. -/
def part (kind : Node.Kind) (name : Value) (inside : List Nat) (finished : Bool) : Node :=
  { kind, index := 4, parent := .int 1, name, children := inside, finished := .bool finished }

/-- A command line in the target or in the task. -/
def line (task text : Value) : Node :=
  { kind := .commandLine, index := 5, parent := .int 4, name := task, value := text }

/-- The tree of the build, with more nodes than the project that reports its moniker. -/
def tree (project : Node) (more : List Node) : Tree where
  nodes := ⟨
    { kind := .build, name := .text "Build", children := [1] } :: project ::
      { kind := .folder, index := 2, parent := .int 1, name := .text "Properties",
        children := [3] } ::
      { kind := .nameValue, index := 3, parent := .int 2, name := .text "TargetFrameworkMoniker",
        value := .text "net8" } :: more⟩

/-- The project is open. -/
def opened : Assembly where
  tree := tree (project [] false) []
  openNodes := [1, 0]

/-- A target or a task in the project is open. -/
def inside (kind : Node.Kind) (name : Value) : Assembly where
  tree := tree (project [4] false) [part kind name [] false]
  openNodes := [4, 1, 0]

/-- The build is closed, with a command line. -/
def closed (kind : Node.Kind) (name task text : Value) : Assembly where
  tree := tree (project [4] true) [part kind name [5] true, line task text]
  openNodes := [0]

-- Each step from one of these trees to the next is computed by itself, whatever values stand in
-- for the names and the line.

theorem steps_opening : Assembly.steps {} [opening] = .ok opened := rfl

theorem openNode_opened (kind : Node.Kind) (name : Value) :
    (opened.openNode { kind, name }).1 = inside kind name := rfl

theorem steps_closing (kind : Node.Kind) (name task text : Value) :
    ((inside kind name).addNode { kind := .commandLine, name := task, value := text }).steps
        [closing, closing] = .ok (closed kind name task text) := rfl

theorem step_call_target (name : Value) :
    (inside .target name).step call = .ok ((inside .target name).addNode
      { kind := .commandLine, name := .text "", value := .text "csc a.cs" }) := rfl

theorem step_call_task (name : Value) :
    (inside .task name).step call = .ok ((inside .task name).addNode
      { kind := .commandLine, name, value := .text "csc a.cs" }) := rfl

/-- A message with a command line inside a target. -/
theorem step_isCall {e : Event} (h : e.isCall = true) :
    (inside .target (.text "")).step e = .ok ((inside .target (.text "")).addNode
      { kind := .commandLine, name := Assembly.orElse e.taskName (.text ""),
        value := e.commandLine }) := by
  obtain ⟨hKind, hGiven⟩ := Event.isCall_iff.mp h
  have hStep : (inside .target (.text "")).step e = (inside .target (.text "")).addMessage e := by
    rcases hKind with hKind | hKind | hKind <;> rw [Assembly.step, hKind]
  rw [hStep, Assembly.addMessage, if_pos hGiven]
  rfl

-- ---------------------------------------------------------------------------
-- The closed build has no results
-- ---------------------------------------------------------------------------

section

variable {kind : Node.Kind} {name task text : Value} {fault : Fault}

/-- The invocations of the project are its one command line, if the settings take its task for a
compiler task. -/
theorem invocations_closed (g : Gathering) (hKind : kind = .target ∨ kind = .task) :
    g.invocations (closed kind name task text).tree (project [4] true) = (do
      let isCompiler ← g.settings.isCompilerTask task
      return if isCompiler then [line task text] else []) := by
  rcases hKind with rfl | rfl <;> rfl

/-- The build counts, so it has no results if its command line cannot be reported. -/
theorem snapshots_closed (e : Event) (hKind : kind = .target ∨ kind = .task)
    (hCalls : ∀ s, (do
      let lines ← (analysis e).gathering.invocations (closed kind name task text).tree
        (project [4] true)
      (analysis e).gathering.reportInvocations (closed kind name task text).tree
        (project [4] true) s lines) = .error fault) :
    (closed kind name task text).snapshots (analysis e).gathering = .error fault := by
  have hVisit : (closed kind name task text).tree.visit .project = [project [4] true] := by
    rcases hKind with rfl | rfl <;> rfl
  have hGroups : (closed kind name task text).tree.itemGroups (.int 1) = .ok [] := by
    rcases hKind with rfl | rfl <;> rfl
  have hMoniker : Gathering.monikerOf (closed kind name task text).tree (project [4] true) =
      .ok "net8" := rfl
  have hProperties : (closed kind name task text).tree.properties (.int 1) =
      .ok [(.text "TargetFrameworkMoniker", .text "net8")] := rfl
  have hWanted : ((analysis e).gathering.isWanted (project [4] true) &&
      (project [4] true).finished.holds) = true := by
    show ("/p/a.csproj" != "" && Path.normalize "/" "/p/a.csproj" ==
      Path.normalize "/" "/p/a.csproj" && true) = true
    rw [beq_self_eq_true]
    decide
  have hStart : ∃ s, (analysis e).gathering.credited .empty "net8" (project [4] true) = .ok s :=
    ⟨_, rfl⟩
  have hFeed := Gathering.feed_error hProperties (fun _ => rfl) hGroups (fun s => ⟨s, rfl⟩) hCalls
  exact Gathering.snapshots_error hVisit hWanted hMoniker (by decide) hStart hFeed

/-- The way up from the command line meets the target, and behind it the project. -/
theorem isCore_closed (g : Gathering) {core : String} (hCore : g.settings.coreName = .ok core)
    (name task text : Value) :
    g.isCore (closed .target name task text).tree (project [4] true) (line task text) =
      (name.asText .lower).map fun name => decide (Text.lower name = core) := by
  have hAbove : (closed .target name task text).tree.above (line task text) =
      ([part .target name [5] true, project [4] true,
        { kind := .build, name := .text "Build", children := [1] }], none) := rfl
  rw [Gathering.isCore, hCore]
  simp only [hAbove]
  have hOther : ¬ (part .target name [5] true).index = (project [4] true).index :=
    show ¬ 4 = 1 by decide
  have hTarget : (part .target name [5] true).kind = .target := rfl
  rw [Gathering.meetsCore, if_neg hOther, if_pos hTarget]
  cases hName : name.asText .lower with
  | error fault =>
    have hPart : (part .target name [5] true).name.asText .lower = .error fault := hName
    simp only [hPart]
    rfl
  | ok found =>
    have hPart : (part .target name [5] true).name.asText .lower = .ok found := hName
    simp only [hPart]
    by_cases hFound : Text.lower found = core
    · simp [hFound, Except.map]
    · simp [hFound, Except.map, Gathering.meetsCore]

/-- The name of the task of a command line is no text. -/
theorem snapshots_of_task (e : Event) (hKind : kind = .target ∨ kind = .task)
    (hTask : ¬ task.ReadsAsText) :
    (closed kind name task text).snapshots (analysis e).gathering =
      .error (.unusable task.kind .lower) := by
  refine snapshots_closed e hKind fun s => ?_
  rw [invocations_closed _ hKind, Settings.isCompilerTask_error _ hTask]
  rfl

/-- The command line of a compiler task cannot be reported. -/
theorem snapshots_of_report (e : Event)
    (hTask : (analysis e).gathering.settings.isCompilerTask task = .ok true)
    (hReport : ∀ s : Snapshot, (do
      let core ← (name.asText .lower).map fun name =>
        decide (Text.lower name = Text.lower (analysis e).coreTarget)
      s.recordInvocation text core) = .error fault) :
    (closed .target name task text).snapshots (analysis e).gathering = .error fault := by
  refine snapshots_closed e (.inl rfl) fun s => ?_
  have hLines : (analysis e).gathering.invocations (closed .target name task text).tree
      (project [4] true) = .ok [line task text] := by
    rw [invocations_closed _ (.inl rfl), hTask]
    rfl
  rw [hLines, Except.ok_bind, Gathering.reportInvocations_singleton,
    isCore_closed _ (analysis e).coreName_eq]
  exact hReport s

/-- The name of the target around a command line of no task is no text. -/
theorem snapshots_of_target (e : Event) (hName : ¬ name.ReadsAsText) :
    (closed .target name (.text "") text).snapshots (analysis e).gathering =
      .error (.unusable name.kind .lower) := by
  refine snapshots_of_report e ((analysis e).isCompilerTask_eq "") fun s => ?_
  rw [Value.asText_error .lower (Value.not_readsAsText_iff.mp hName).2]
  rfl

/-- A command line of a compiler task is no text. -/
theorem snapshots_of_line (e : Event)
    (hTask : (analysis e).gathering.settings.isCompilerTask task = .ok true)
    (hText : ¬ text.ReadsAsText) :
    (closed .target (.text "") task text).snapshots (analysis e).gathering =
      .error (.unusable text.kind .strip) := by
  refine snapshots_of_report e hTask fun s => ?_
  rw [Value.asText_text]
  exact s.recordInvocation_error _ hText

end

-- ---------------------------------------------------------------------------
-- The short build
-- ---------------------------------------------------------------------------

/-- The events of the short build, apart from the one that it is built around. -/
def events : List Event :=
  [opening, target, call, closing]

/-- What stands around an event is among a few events, whatever the event is. -/
theorem mem_events {e x : Event} (hx : x ∈ before e ++ after e) : x ∈ events := by
  have hSubsets : before e ⊆ events ∧ after e ⊆ events := by
    rw [before, after, events]
    cases e.kind <;> simp
  rcases List.mem_append.mp hx with hBefore | hAfter
  · exact hSubsets.1 hBefore
  · exact hSubsets.2 hAfter

theorem textual_events : ∀ x ∈ events, x.Textual := by decide

theorem ofValue_toValue_events : ∀ x ∈ events, Event.ofValue x.toValue = .ok x := by
  simp only [events, List.forall_mem_cons]
  exact ⟨rfl, rfl, rfl, rfl, List.forall_mem_nil _⟩

variable {e : Event}

theorem around_of_isCall (h : e.isCall = true) :
    before e = [opening, target] ∧ after e = [closing, closing] := by
  rw [before, after]
  rcases (Event.isCall_iff.mp h).1 with hKind | hKind | hKind <;> simp [hKind]

/-- A project whose file is no text fails when it starts. -/
theorem steps_of_project (hKind : e.kind = .projectStarted) (hFile : ¬ e.projectFile.ReadsAsText) :
    Assembly.steps {} (before e ++ e :: after e) =
      .error (.unusable e.projectFile.kind .replace) := by
  have hBefore : before e = [] := by rw [before, hKind]
  have hStep : Assembly.step {} e = .error (.unusable e.projectFile.kind .replace) := by
    rw [Assembly.step, hKind]
    exact Assembly.startProject_error hFile
  rw [hBefore, List.nil_append, Assembly.steps, hStep]

/-- An event that opens a target or a task, and then a compiler call inside. -/
theorem steps_of_opens {kind : Node.Kind} {name task : Value} (hBefore : before e = [opening])
    (hAfter : after e = [call, closing, closing]) (hOpens : opened.step e = .ok (inside kind name))
    (hCall : (inside kind name).step call = .ok ((inside kind name).addNode
      { kind := .commandLine, name := task, value := .text "csc a.cs" })) :
    Assembly.steps {} (before e ++ e :: after e) =
      .ok (closed kind name task (.text "csc a.cs")) := by
  rw [hBefore, hAfter, Assembly.steps_append steps_opening, Assembly.steps, hOpens]
  show (inside kind name).steps [call, closing, closing] = _
  rw [Assembly.steps, hCall]
  exact steps_closing kind name task (.text "csc a.cs")

/-- A target with a name comes to a closed build with a call inside it. -/
theorem steps_of_target (hKind : e.kind = .targetStarted) (hGiven : e.targetName.holds = true) :
    Assembly.steps {} (before e ++ e :: after e) =
      .ok (closed .target e.targetName (.text "") (.text "csc a.cs")) := by
  have hOpens : opened.step e = .ok (inside .target e.targetName) := by
    rw [Assembly.step, hKind]
    show Except.ok (opened.openNode { kind := .target, name := e.targetName.orEmpty }).1 = _
    rw [Value.orEmpty_of_holds hGiven, openNode_opened]
  exact steps_of_opens (by rw [before, hKind]) (by rw [after, hKind]) hOpens
    (step_call_target e.targetName)

/-- A task with a name comes to a closed build with a call inside it, which is one of this task. -/
theorem steps_of_task (hKind : e.kind = .taskStarted) (hGiven : e.taskName.holds = true) :
    Assembly.steps {} (before e ++ e :: after e) =
      .ok (closed .task e.taskName e.taskName (.text "csc a.cs")) := by
  have hOpens : opened.step e = .ok (inside .task e.taskName) := by
    rw [Assembly.step, hKind]
    show Except.ok (opened.openNode { kind := .task, name := e.taskName.orEmpty }).1 = _
    rw [Value.orEmpty_of_holds hGiven, openNode_opened]
  exact steps_of_opens (by rw [before, hKind]) (by rw [after, hKind]) hOpens
    (step_call_task e.taskName)

/-- A command line comes to a closed build with this line inside a target. -/
theorem steps_of_isCall (h : e.isCall = true) :
    Assembly.steps {} (before e ++ e :: after e) =
      .ok (closed .target (.text "") (Assembly.orElse e.taskName (.text "")) e.commandLine) := by
  have hFirst : Assembly.steps {} [opening, target] = .ok (inside .target (.text "")) :=
    Assembly.steps_append steps_opening [target]
  obtain ⟨hBefore, hAfter⟩ := around_of_isCall h
  rw [hBefore, hAfter, Assembly.steps_append hFirst, Assembly.steps, step_isCall h]
  exact steps_closing .target (.text "") (Assembly.orElse e.taskName (.text "")) e.commandLine

/-- The short build around an event that does not fit has no results: a value that is no text was
to be used as one. -/
theorem digest_eq (hFits : ¬ e.Fits) : ∃ kind use, kind ≠ .text ∧ ∀ observers,
    Processor.digest (analysis e).cwd (analysis e).path (analysis e).settings observers
      (before e ++ e :: after e) = .error (.unusable kind use) := by
  simp only [Processor.digest_eq_steps]
  rcases Event.not_fits_cases hFits with ⟨hKind, hFile⟩ | ⟨hKind, hName⟩ | ⟨hKind, hTask⟩ |
    ⟨hCall, hTask, hLine⟩
  · refine ⟨_, .replace, (Value.not_readsAsText_iff.mp hFile).2, fun _ => ?_⟩
    rw [steps_of_project hKind hFile]
    rfl
  · obtain ⟨hGiven, hOther⟩ := Value.not_readsAsText_iff.mp hName
    refine ⟨_, .lower, hOther, fun _ => ?_⟩
    rw [steps_of_target hKind hGiven, Except.ok_bind]
    exact snapshots_of_target e hName
  · obtain ⟨hGiven, hOther⟩ := Value.not_readsAsText_iff.mp hTask
    refine ⟨_, .lower, hOther, fun _ => ?_⟩
    rcases hKind with hKind | hCall
    · rw [steps_of_task hKind hGiven, Except.ok_bind]
      exact snapshots_of_task e (.inr rfl) hTask
    · rw [steps_of_isCall hCall, Assembly.orElse, if_pos hGiven, Except.ok_bind]
      exact snapshots_of_task e (.inl rfl) hTask
  · -- the task of the event is a compiler task, or it has none
    have hCompiler : (analysis e).gathering.settings.isCompilerTask
        (Assembly.orElse e.taskName (.text "")) = .ok true := by
      rw [hTask.orElse_eq, (analysis e).isCompilerTask_eq, Analysis.isCompilerTask]
      by_cases hPlain : e.taskName.plain = ""
      · simp [hPlain]
      · simp [hPlain, analysis]
    refine ⟨_, .strip, (Value.not_readsAsText_iff.mp hLine).2, fun _ => ?_⟩
    rw [steps_of_isCall hCall, Except.ok_bind]
    exact snapshots_of_line e hCompiler hLine

end Probe

-- ---------------------------------------------------------------------------
-- Accepted events
-- ---------------------------------------------------------------------------

/-- Events that fit have snapshots. -/
theorem Analysis.digest_of_fits (q : Analysis) (observers : List Observer) {events : List Event}
    (hFits : ∀ e ∈ events, e.Fits) :
    ∃ snapshots, Processor.digest q.cwd q.path q.settings observers events = .ok snapshots := by
  obtain ⟨snapshots, hSnapshots, -⟩ := q.observed_snapshots (Ledger.run {} events)
  refine ⟨snapshots, ?_⟩
  rw [Processor.digest_eq_of_fits q.cwd q.path q.settings observers hFits]
  exact hSnapshots

/-- Accepted events never make an analysis fail if they all fit, nor a processor that only
observes. But each that does not fit does so in a build of accepted events that fit: the analysis
uses a value as a text that is none. -/
theorem Analysis.digest_of_decodeAll {vs : List Value} {events : List Event}
    (hDecode : Event.decodeAll vs = .ok events) :
    ((∀ e ∈ events, e.Fits) → ∀ (q : Analysis) (observers : List Observer), ∃ snapshots,
      Processor.digest q.cwd q.path q.settings observers events = .ok snapshots) ∧
    (∀ (q : Analysis) (observers : List Observer), ∃ p p',
      Processor.start q.cwd (.text q.path) q.settings false observers = .ok p ∧
        p.processAll events = (p', none) ∧ p'.results = .ok []) ∧
    (∀ e ∈ events, ¬ e.Fits → ∃ (q : Analysis) (us : List Value) (before after : List Event)
        (kind : Value.Kind) (use : Use),
      Event.decodeAll us = .ok (before ++ e :: after) ∧ (∀ x ∈ before ++ after, x.Fits) ∧
        kind ≠ .text ∧ ∀ observers, Processor.digest q.cwd q.path q.settings observers
          (before ++ e :: after) = .error (.unusable kind use)) := by
  refine ⟨fun hFits q observers => q.digest_of_fits observers hFits, ?_, ?_⟩
  · intro q observers
    have hNone : (Processor.idle q.cwd (Path.normalize q.cwd q.path) q.settings false
        observers).assembly = none := rfl
    obtain ⟨p', hAll, hStill⟩ := Processor.processAll_of_none hNone events
    refine ⟨_, p', rfl, hAll, ?_⟩
    rw [Processor.results, hStill]
  · intro e he hFits
    obtain ⟨v, hv⟩ := Event.exists_ofValue_of_decodeAll hDecode he
    obtain ⟨kind, use, hKind, hFault⟩ := Probe.digest_eq hFits
    have hOthers : ∀ x ∈ Probe.before e ++ Probe.after e, x ∈ Probe.events :=
      fun x hx => Probe.mem_events hx
    have hBefore : Event.decodeAll ((Probe.before e).map Event.toValue) = .ok (Probe.before e) :=
      Event.decodeAll_map_toValue fun x hx =>
        Probe.ofValue_toValue_events x (hOthers x (List.mem_append_left _ hx))
    have hAfter : Event.decodeAll ((Probe.after e).map Event.toValue) = .ok (Probe.after e) :=
      Event.decodeAll_map_toValue fun x hx =>
        Probe.ofValue_toValue_events x (hOthers x (List.mem_append_right _ hx))
    have hFrom : Event.decodeAll (v :: (Probe.after e).map Event.toValue) =
        .ok (e :: Probe.after e) := by
      rw [Event.decodeAll, hv, Except.ok_bind, hAfter]
      rfl
    refine ⟨Probe.analysis e, _, Probe.before e, Probe.after e, kind, use,
      Event.decodeAll_append hBefore hFrom, ?_, hKind, hFault⟩
    exact fun x hx => (Probe.textual_events x (hOthers x hx)).fits

/-- The start of a project whose file is a number is accepted, and no analysis can take it. -/
theorem Analysis.digest_of_decodeAll_number :
    let v : Value := .object [("kind", .text "ProjectStarted"), ("projectFile", .int 5)]
    ∃ e, Event.decodeAll [v] = .ok [e] ∧ ∃ (q : Analysis) (us : List Value)
      (before after : List Event) (kind : Value.Kind) (use : Use),
        Event.decodeAll us = .ok (before ++ e :: after) ∧
          Processor.digest q.cwd q.path q.settings [] (before ++ e :: after) =
            .error (.unusable kind use) := by
  intro v
  have hDecode : Event.decodeAll [v] =
      .ok [{ kind := .projectStarted, projectFile := .int 5 }] := rfl
  have hFits : ¬ ({ kind := .projectStarted, projectFile := .int 5 } : Event).Fits :=
    fun h => absurd (h.projectFile rfl) (by decide)
  obtain ⟨q, us, before, after, kind, use, hAccepted, -, -, hFault⟩ :=
    (digest_of_decodeAll hDecode).2.2 _ (List.mem_singleton_self _) hFits
  exact ⟨_, hDecode, q, us, before, after, kind, use, hAccepted, hFault []⟩

end BuildDigest
