import BuildDigest.Proofs.Ledger.Orphans
import BuildDigest.Proofs.Processor.Digest

/-!
# Builds inside builds

How the builds of projects that other builds start come into what a processor
gives.

* `Processor.digest_insert` — builds of other projects do not matter, wherever they are.
* `Surroundings` — a task of a target of a project that starts a build.
* `Analysis.digest_around` — how surroundings matter to a build.
-/

namespace BuildDigest

/-- Whether an event starts a build of a project. -/
def Event.startsBuildOf (cwd project : String) (e : Event) : Bool :=
  e.kind == .projectStarted && e.projectFile.plain != "" &&
    Path.normalize cwd e.projectFile.plain == Path.normalize cwd project

namespace Ledger

/-- The entries of projects that no event of a block asks for are not wanted. -/
theorem not_isWanted_of_files {g : Gathering} {path : String} {block : List Event}
    {entries : List Entry} (hProject : g.project = Path.normalize g.cwd path)
    (hFiles : entries.map (·.file) = (block.flatMap opened).map (·.file))
    (hOther : ∀ e ∈ block, e.startsBuildOf g.cwd path = false) :
    ∀ b ∈ entries, g.isWanted b.node = false := by
  intro b hb
  have hFile : b.file ∈ (block.flatMap opened).map (·.file) := by
    rw [← hFiles]
    exact List.mem_map_of_mem hb
  obtain ⟨b', hb', hSame⟩ := List.mem_map.mp hFile
  obtain ⟨e, he, hOpened⟩ := List.mem_flatMap.mp hb'
  have hStarts := hOther e he
  unfold opened at hOpened
  cases hKind : e.kind with
  | projectStarted =>
    rw [hKind] at hOpened
    obtain rfl := List.mem_singleton.mp hOpened
    rw [Event.startsBuildOf, hKind, beq_self_eq_true, Bool.true_and, ← hProject] at hStarts
    show (b.file != "" && Path.normalize g.cwd b.file == g.project) = false
    rw [← hSame]
    exact hStarts
  | _ => rw [hKind] at hOpened; cases hOpened

end Ledger

namespace Processor

/-- A build of other projects does not change what a processor gives, wherever it is put in and
whatever it reports. -/
theorem digest_insert (cwd project : String) (settings : Settings) (observers : List Observer)
    {block : List Event} (hBlock : Event.isBuild block = true)
    (hOther : ∀ e ∈ block, e.startsBuildOf cwd project = false) (first later : List Event)
    (hTextual : ∀ e ∈ first ++ block ++ later, e.Textual) :
    digest cwd project settings observers (first ++ block ++ later) =
      digest cwd project settings observers (first ++ later) := by
  have hTextual' : ∀ e ∈ first ++ later, e.Textual := by
    intro e he
    rcases List.mem_append.mp he with hFirst | hLater
    · exact hTextual e (List.mem_append_left _ (List.mem_append_left _ hFirst))
    · exact hTextual e (List.mem_append_right _ hLater)
  rw [digest_eq cwd project settings observers hTextual,
    digest_eq cwd project settings observers hTextual']
  obtain ⟨before, extra, after, hWithout, hWith, hFiles⟩ := Ledger.run_insert hBlock first later
  rw [Ledger.snapshots, Ledger.snapshots, hWith, hWithout, List.foldlM_append, List.foldlM_append]
  have hExtra := Ledger.not_isWanted_of_files
    (g := { cwd, project := Path.normalize cwd project, settings }) rfl hFiles hOther
  refine congrArg (Except.map _) (bind_congr fun snapshots => ?_)
  rw [List.foldlM_append, Ledger.foldlM_of_not_wanted _ hExtra]
  rfl

/-- A build of another project with a compiler call. -/
def otherBuild : List Event :=
  [ { kind := .projectStarted, projectFile := .text "/p/b.csproj",
      properties := [("TargetFrameworkMoniker", "net6")] },
    { kind := .message, taskName := .text "Csc", commandLine := .text "csc b.cs" },
    { kind := .taskFinished } ]

/-- The other build is put in inside the core target. -/
theorem digest_insert_otherBuild :
    Event.isBuild otherBuild = true ∧
      (∀ e ∈ otherBuild, e.startsBuildOf "/" "/p/a.csproj" = false) ∧
      (∀ e ∈ oneBuild.take 2 ++ otherBuild ++ oneBuild.drop 2, e.Textual) ∧
      digest "/" "/p/a.csproj" {} [] (oneBuild.take 2 ++ otherBuild ++ oneBuild.drop 2) =
        digest "/" "/p/a.csproj" {} [] (oneBuild.take 2 ++ oneBuild.drop 2) ∧
      (digest "/" "/p/a.csproj" {} [] (oneBuild.take 2 ++ oneBuild.drop 2)).map
        (·.map (·.arguments)) = .ok [[.positional "csc", .positional "a.cs"]] := by
  have hBlock : Event.isBuild otherBuild = true := rfl
  have hOther : ∀ e ∈ otherBuild, e.startsBuildOf "/" "/p/a.csproj" = false := by decide
  have hTextual : ∀ e ∈ oneBuild.take 2 ++ otherBuild ++ oneBuild.drop 2, e.Textual := by decide
  exact ⟨hBlock, hOther, hTextual,
    digest_insert "/" "/p/a.csproj" {} [] hBlock hOther (oneBuild.take 2) (oneBuild.drop 2) hTextual,
    rfl⟩

end Processor

-- ---------------------------------------------------------------------------
-- A build inside a task of another project
-- ---------------------------------------------------------------------------

/-- A project, a target and a task that are open around a build, and are closed after it. -/
structure Surroundings where
  project : Event
  target : Event
  task : Event
  taskEnd : Event
  targetEnd : Event
  projectEnd : Event
  project_kind : project.kind = .projectStarted
  target_kind : target.kind = .targetStarted
  task_kind : task.kind = .taskStarted
  taskEnd_closes : taskEnd.kind.effect = .closes
  targetEnd_closes : targetEnd.kind.effect = .closes
  projectEnd_closes : projectEnd.kind.effect = .closes

namespace Surroundings

variable (c : Surroundings) {block : List Event}

def around (block : List Event) : List Event :=
  [c.project, c.target, c.task] ++ block ++ [c.taskEnd, c.targetEnd, c.projectEnd]

/-- The project around a build has the first entry; the others are those of the build inside a task
of the name. -/
theorem entries_run_around (hBlock : Event.isBuild block = true) :
    (Ledger.run {} (c.around block)).entries =
      (Ledger.Entry.ofEvent c.project).finish c.projectEnd.succeeded.holds ::
        (Ledger.run { frames := [.task c.task.taskName.plain] } block).entries := by
  have hOpen : Ledger.run {} [c.project, c.target, c.task] =
      { entries := [.ofEvent c.project],
        frames := [.task c.task.taskName.plain, .target c.target.targetName.plain, .project 0] } := by
    simp only [Ledger.run, List.foldl_cons, List.foldl_nil, Ledger.step, c.project_kind,
      c.target_kind, c.task_kind]
    rfl
  obtain ⟨hEntries, hFrames⟩ :=
    Ledger.run_build hBlock (Ledger.run {} [c.project, c.target, c.task])
  rw [around, Ledger.run_append, Ledger.run_append]
  generalize (Ledger.run {} [c.project, c.target, c.task]).run block = l at hEntries hFrames ⊢
  rw [hOpen] at hEntries hFrames
  -- the frames of the surroundings are closed one by one, and only the project has an entry
  obtain ⟨entries, frames⟩ := l
  dsimp only at hEntries hFrames
  rw [hEntries, hFrames, Ledger.run_cons, Ledger.run_cons, Ledger.run_cons, Ledger.run_nil,
    Ledger.step_of_closes c.taskEnd_closes, Ledger.step_of_closes c.targetEnd_closes,
    Ledger.step_of_closes c.projectEnd_closes]
  rfl

end Surroundings

/-- Inside a compiler task, or a task without a name, a build of a project comes to what it comes
to alone. Inside any other task its command lines of no task are taken for those of that task and
do not count, so it comes to what it comes to alone without them. That is the same only if they do
not matter. -/
theorem Analysis.digest_around (q : Analysis) (observers : List Observer) (c : Surroundings)
    {block : List Event} (hBlock : Event.isBuild block = true)
    (hOther : c.project.startsBuildOf q.cwd q.path = false)
    (hTextual : ∀ e ∈ c.around block, e.Textual) :
    Processor.digest q.cwd q.path q.settings observers (c.around block) =
        Processor.digest q.cwd q.path q.settings observers
          (if q.isCompilerTask c.task.taskName.plain then block
            else Ledger.withoutOrphans {} block) ∧
      (Processor.digest q.cwd q.path q.settings observers (c.around block) =
          Processor.digest q.cwd q.path q.settings observers block ↔
        q.isCompilerTask c.task.taskName.plain = true ∨
          Processor.digest q.cwd q.path q.settings observers (Ledger.withoutOrphans {} block) =
            Processor.digest q.cwd q.path q.settings observers block) := by
  have hBlockTextual : ∀ e ∈ block, e.Textual := fun e he =>
    hTextual e (List.mem_append_left _ (List.mem_append_right _ he))
  have hAloneTextual : ∀ e ∈ (if q.isCompilerTask c.task.taskName.plain then block
      else Ledger.withoutOrphans {} block), e.Textual := by
    split
    · exact hBlockTextual
    · exact fun e he => hBlockTextual e (Ledger.mem_of_mem_withoutOrphans he)
  -- the project around is not asked for, so its entry reports nothing
  have hOuter : q.gathering.isWanted
      ((Ledger.Entry.ofEvent c.project).finish c.projectEnd.succeeded.holds).node = false := by
    rw [Event.startsBuildOf, c.project_kind, beq_self_eq_true, Bool.true_and] at hOther
    exact hOther
  have hAlike := q.alike_run hBlock c.task.taskName.plain
  have hDigest : Processor.digest q.cwd q.path q.settings observers (c.around block) =
      Processor.digest q.cwd q.path q.settings observers
        (if q.isCompilerTask c.task.taskName.plain then block
          else Ledger.withoutOrphans {} block) := by
    rw [Processor.digest_eq q.cwd q.path q.settings observers hTextual,
      Processor.digest_eq q.cwd q.path q.settings observers hAloneTextual]
    refine congrArg (Except.map _) ?_
    rw [c.entries_run_around hBlock, List.foldlM_cons]
    show (q.gathering.visitEntry .empty _ >>= fun snapshots =>
      List.foldlM q.gathering.visitEntry snapshots _) = _
    rw [Ledger.visitEntry_of_not_wanted _ hOuter]
    exact q.foldlM_visitEntry_eq hAlike .empty
  refine ⟨hDigest, ?_⟩
  rw [hDigest]
  cases q.isCompilerTask c.task.taskName.plain with
  | true => exact iff_of_true rfl (Or.inl rfl)
  | false => exact ⟨Or.inr, fun h => h.resolve_left Bool.false_ne_true⟩

def Surroundings.msbuild : Surroundings where
  project := { kind := .projectStarted, projectFile := .text "/p/all.proj" }
  target := { kind := .targetStarted, targetName := .text "Build" }
  task := { kind := .taskStarted, taskName := .text "MSBuild" }
  taskEnd := { kind := .taskFinished, succeeded := .bool true }
  targetEnd := { kind := .targetFinished, succeeded := .bool true }
  projectEnd := { kind := .projectFinished, succeeded := .bool true }
  project_kind := rfl
  target_kind := @rfl _ Event.Kind.targetStarted
  task_kind := rfl
  taskEnd_closes := rfl
  targetEnd_closes := rfl
  projectEnd_closes := rfl

/-- A build with a compiler call of no task. -/
def taskless : List Event :=
  [ { kind := .projectStarted, projectFile := .text "/p/a.csproj",
      properties := [("TargetFrameworkMoniker", "net8")] },
    { kind := .message, commandLine := .text "csc a.cs" },
    { kind := .projectFinished, succeeded := .bool true } ]

/-- A compiler call of no task is lost inside a task that is not a compiler's. -/
theorem Analysis.digest_around_taskless :
    Event.isBuild taskless = true ∧
      Surroundings.msbuild.project.startsBuildOf "/" "/p/a.csproj" = false ∧
      (∀ e ∈ Surroundings.msbuild.around taskless, e.Textual) ∧
      Processor.digest "/" "/p/a.csproj" (usual "/p/a.csproj").settings []
          (Surroundings.msbuild.around taskless) =
        Processor.digest "/" "/p/a.csproj" (usual "/p/a.csproj").settings []
          (if (usual "/p/a.csproj").isCompilerTask "MSBuild" then taskless
            else Ledger.withoutOrphans {} taskless) ∧
      (Processor.digest "/" "/p/a.csproj" (usual "/p/a.csproj").settings []
          (Surroundings.msbuild.around taskless)).map (·.map (·.arguments)) = .ok [[]] ∧
      (Processor.digest "/" "/p/a.csproj" (usual "/p/a.csproj").settings [] taskless).map
          (·.map (·.arguments)) = .ok [[.positional "csc", .positional "a.cs"]] := by
  have hBlock : Event.isBuild taskless = true := rfl
  have hOther : Surroundings.msbuild.project.startsBuildOf "/" "/p/a.csproj" = false := by decide
  have hTextual : ∀ e ∈ Surroundings.msbuild.around taskless, e.Textual := by decide
  have hDigest := ((usual "/p/a.csproj").digest_around [] .msbuild hBlock hOther hTextual).1
  exact ⟨hBlock, hOther, hTextual, hDigest, rfl, rfl⟩

end BuildDigest
