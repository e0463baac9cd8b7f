import BuildDigest.Proofs.Forest.Steps
import BuildDigest.Proofs.Processor.Digest

/-!
# The tree of a forest

A processor that takes the events of a forest, between the start and the end of a
build, comes to a tree that is laid out as the forest below its root. So the
stream can be read off the tree: nothing of it is lost, moved or added.

* `Assembly.Logs` — the events of a forest were logged below a node.
* `Entered.stores_around`, `Entered.stores_inner` — what is stored when a part is about to finish.
* `Within.pass`, `Passed.logs`, `Within.logs` — a part, and a forest, is logged.
* `Tree.Parses` — a tree is the parse tree of a build.
* `Processor.processAll_forest` — the tree of a build.
-/

namespace BuildDigest

namespace Assembly

variable {a a' a₁ : Assembly} {p i : Nat} {es : List Event} {js is is' : List Nat} {s : Span}
  {inner : Forest}

-- ---------------------------------------------------------------------------
-- Forests
-- ---------------------------------------------------------------------------

/-- The events of a forest are logged below the open node `p`, which gets the branches `js`. The
project around stored `es` before. -/
structure Logs (a : Assembly) (p : Nat) (es : List Event) (js is : List Nat) (f : Forest)
    (a' : Assembly) : Prop where
  steps : a.steps f.events = .ok a'
  within : a'.Within p (es ++ f.reports)
  grows : a.tree.Grows p (a.tree.holder p) js is a'.tree
  laidOut : a'.tree.LaidOut a'.tree.Stores (a.tree.taskOver p) p js is f

/-- When more was logged at the open node, the rest of a forest is seen from where it began. -/
theorem Within.resume (h : a.Within p es) {held : Option Nat} {ks ls : List Nat}
    (hGrows : a.tree.Grows p held ks ls a₁.tree) {es' : List Event} {rest : Forest}
    (hRest : a₁.Logs p es' js is rest a') :
    a₁.tree.Grows p (a.tree.holder p) js is a'.tree ∧
      a'.tree.LaidOut a'.tree.Stores (a.tree.taskOver p) p js is rest := by
  rw [← h.holder_eq hGrows, ← h.taskOver_eq hGrows]
  exact ⟨hRest.grows, hRest.laidOut⟩

section Part

variable {a₂ : Assembly} (h : a.Within p es) (h₁ : a.Entered p es s a₁)
  (h₂ : a₁.Logs a.tree.size (s.carried es) js is inner a₂)

include h₁ h₂

/-- The node of a part stays as it is until the part is finished. -/
theorem Entered.row_inner :
    a₂.tree.row a.tree.size = some (s.node.placed a.tree.size (.int p)) :=
  (h₂.grows.row _ h₁.within.logged).trans h₁.row

theorem Entered.branches_inner : a₂.tree.branches a.tree.size = js := by
  rw [h₂.grows.here, h₁.branches, List.nil_append]

/-- What is logged inside a part leaves the project around the part, which is the part itself if it
is a project. -/
theorem Entered.holder_inner :
    a₂.tree.holder a.tree.size =
      if s.part = .project then some a.tree.size else a.tree.holder p :=
  (h₁.within.holder_eq h₂.grows).trans h₁.holder

/-- A project that is about to finish stores what was reported in it. -/
theorem Entered.stores_inner (hPart : s.part = .project) :
    a₂.tree.Stores a.tree.size (s.opening :: inner.reports) := by
  have hHolder := h₁.holder_inner h₂
  have hStored := h₂.within.stored
  rw [if_pos hPart] at hHolder
  rw [Span.carried, if_pos hPart] at hStored
  exact hStored _ hHolder

include h

/-- With all that is logged inside it, a part is one new branch of the node around it. -/
theorem Entered.grows_inner :
    a.tree.Grows p (a.tree.holder p) [a.tree.size] (a.tree.size :: is) a₂.tree := by
  refine h₁.grows.inside h₂.grows h.logged ?_
  rw [h₁.holder]
  split
  · exact Or.inr rfl
  · exact Or.inl rfl

/-- When a part is about to finish, the project around it stores what it stored before, and what
was reported inside the part unless that is a project itself. -/
theorem Entered.stores_around (hi : a.tree.holder p = some i) :
    a₂.tree.Stores i (es ++ if s.part = .project then [] else inner.reports) := by
  have hHolder := h₁.holder_inner h₂
  have hStored := h₂.within.stored
  by_cases hPart : s.part = .project
  · have hStores := h.stored i hi
    have hiSize := hStores.lt_size
    rw [if_pos hPart, List.append_nil]
    refine h₂.grows.stores i es ?_ (h₁.grows.stores i es nofun hStores)
    rw [h₁.holder, if_pos hPart]
    intro hEq
    have := Option.some.inj hEq
    omega
  · rw [if_neg hPart] at hHolder
    rw [Span.carried, if_neg hPart] at hStored
    rw [if_neg hPart]
    exact hStored i (hHolder.trans hi)

end Part

/-- A part was logged with a forest inside, and is finished. -/
structure Passed (a : Assembly) (p : Nat) (es : List Event) (s : Span) (inner : Forest)
    (is : List Nat) (a' : Assembly) : Prop where
  steps : a.steps (s.opening :: (inner.events ++ [s.closing])) = .ok a'
  within : a'.Within p (es ++ if s.part = .project then [] else inner.reports)
  grows : a.tree.Grows p (a.tree.holder p) [a.tree.size] (a.tree.size :: is) a'.tree
  here : a'.tree.PartAt p a.tree.size s
  inside : a'.tree.LaidOut a'.tree.Stores (s.taskInside (a.tree.taskOver p)) a.tree.size
    (a'.tree.branches a.tree.size) is inner
  reported : s.part = .project → a'.tree.Stores a.tree.size (s.opening :: inner.reports)

/-- A part is logged below the open node, when the forest inside can be logged anywhere. -/
theorem Within.pass (h : a.Within p es) (hTextual : s.opening.Textual)
    (hInner : ∀ {a₁ : Assembly} {j : Nat} {es₁ : List Event}, a₁.Within j es₁ →
      ∃ js is a₂, a₁.Logs j es₁ js is inner a₂) :
    ∃ is a', a.Passed p es s inner is a' := by
  obtain ⟨a₁, h₁⟩ := h.enter s hTextual
  obtain ⟨js, is, a₂, h₂⟩ := hInner h₁.within
  have hWf := h₂.within.standing.wellFormed
  have hKeeps := Tree.keeps_finishing s.closing.succeeded
  have hGrows := h₁.grows_inner h h₂
  have hRow := h₁.row_inner h₂
  have hParent : a₂.tree.parent? a.tree.size = some p := by
    rw [Tree.parent?, hRow]
    rfl
  obtain ⟨hWithin, hTree⟩ := h₂.within.leave hParent (hGrows.mem h.logged)
    (fun i hi => h₁.stores_around h h₂ ((h.holder_eq hGrows).symm.trans hi)) s.closing
  refine ⟨is, a₂.closeNode s.closing, ?_, hWithin, ?_, ?_, ?_, ?_⟩
  · rw [steps, h₁.step]
    show a₁.steps (inner.events ++ [s.closing]) = _
    rw [steps_append h₂.steps, steps, step_closing]
    rfl
  · rw [hTree]
    exact hGrows.finish hWf (Nat.le_refl _) _
  · rw [hTree, Tree.PartAt, Tree.row_change hKeeps, if_pos rfl, hRow]
    rfl
  · rw [hTree, Tree.branches_change hKeeps, h₁.branches_inner h₂, ← h₁.task]
    refine h₂.laidOut.finish hWf ?_ _
    intro i hi
    have := h₂.grows.lt_of_mem h₁.within.logged hi
    omega
  · intro hPart
    rw [hTree]
    exact (h₁.stores_inner h₂ hPart).finishing hWf _ _

/-- A forest goes on after a part. -/
theorem Passed.logs (hPassed : a.Passed p es s inner is a₁) (h : a.Within p es) {rest : Forest}
    (hRest : a₁.Logs p (es ++ if s.part = .project then [] else inner.reports) js is' rest a') :
    a.Logs p es (a.tree.size :: js) (a.tree.size :: (is ++ is')) (.block s inner rest) a' := by
  obtain ⟨hGrows, hLaid⟩ := h.resume hPassed.grows hRest
  have hj := hPassed.grows.mem_new (List.mem_cons_self ..)
  have hpSize := h.standing.isOpen
  refine ⟨?_, ?_, hPassed.grows.trans hGrows, .block ?_ ?_ ?_ hLaid⟩
  · have hEvents : (Forest.block s inner rest).events =
        s.opening :: (inner.events ++ [s.closing]) ++ rest.events := by
      simp [Forest.events]
    rw [hEvents, steps_append hPassed.steps]
    exact hRest.steps
  · rw [Forest.reports, ← List.append_assoc]
    exact hRest.within
  · rw [Tree.PartAt, hGrows.row _ hj]
    exact hPassed.here
  · rw [hGrows.branches _ hj (Nat.ne_of_gt hpSize)]
    refine hPassed.inside.grows hGrows ?_ ?_ h.le_of_holder
    · intro i hi
      exact hPassed.grows.mem_new (List.mem_cons_of_mem _ hi)
    · intro i hi
      exact hPassed.grows.lt_of_mem h.logged (List.mem_cons_of_mem _ hi)
  · intro hProject
    refine hGrows.stores _ _ ?_ (hPassed.reported hProject)
    intro hEq
    have := h.le_of_holder _ hEq
    omega

/-- A forest is logged below the open node. -/
theorem Within.logs (f : Forest) (h : a.Within p es) (hTextual : ∀ e ∈ f.events, e.Textual) :
    ∃ js is a', a.Logs p es js is f a' := by
  -- inside a part another node is open, and what is stored around it is another list
  induction f generalizing a p es with
  | nil =>
    refine ⟨[], [], a, rfl, ?_, Tree.Grows.refl _ _ _, .nil⟩
    rwa [Forest.reports, List.append_nil]
  | message e hKind rest ih =>
    rw [Forest.events, List.forall_mem_cons] at hTextual
    obtain ⟨a₁, hStep, hWithin, hGrows, hMessage⟩ := h.message hKind hTextual.1
    obtain ⟨js, is, a', hRest⟩ := ih hWithin hTextual.2
    obtain ⟨hGrows', hLaid⟩ := h.resume hGrows hRest
    refine ⟨a.tree.size :: js, a.tree.size :: is, a', ?_, hRest.within,
      (hGrows.weaken _).trans hGrows', .message ?_ hLaid⟩
    · rw [Forest.events, steps, hStep]
      exact hRest.steps
    · rw [Tree.MessageAt, hGrows'.row _ (hGrows.mem_new (List.mem_singleton_self _))]
      exact hMessage
  | data e hKind rest ih =>
    rw [Forest.events, List.forall_mem_cons] at hTextual
    obtain ⟨a₁, hStep, hWithin, hGrows⟩ := h.data hKind
    obtain ⟨js, is, a', hRest⟩ := ih hWithin hTextual.2
    obtain ⟨hGrows', hLaid⟩ := h.resume hGrows hRest
    refine ⟨js, is, a', ?_, ?_, hGrows.trans hGrows', .data hLaid⟩
    · rw [Forest.events, steps, hStep]
      exact hRest.steps
    · rw [Forest.reports, List.append_cons]
      exact hRest.within
  | block s inner rest ihInner ihRest =>
    rw [Forest.events, List.forall_mem_cons, List.forall_mem_append, List.forall_mem_cons]
      at hTextual
    obtain ⟨hOpening, hInner, -, hRest⟩ := hTextual
    obtain ⟨is, a₁, hPassed⟩ := h.pass hOpening fun h₁ => ihInner h₁ hInner
    obtain ⟨js, is', a', hLogs⟩ := ihRest hPassed.within hRest
    exact ⟨_, _, a', hPassed.logs h hLogs⟩

-- ---------------------------------------------------------------------------
-- The whole build
-- ---------------------------------------------------------------------------

/-- The start of a build opens the root. -/
theorem within_current : (current {}).1.Within 0 [] := by
  have hStanding := Tree.standing_root (n := { kind := .build, name := .text "Build" }) rfl ⟨_, rfl⟩
  refine ⟨?_, hStanding, Tree.foldered_root rfl, ?_, ?_⟩
  · exact congrArg (0 :: ·) hStanding.trail_zero.symm
  · exact Tree.mem_select.mpr ⟨_, Tree.row_add_size _ _ _, rfl⟩
  · intro i hi
    have hRoot : (current {}).1.tree.isProjectAt 0 = false := rfl
    have hTrail : (current {}).1.tree.trail 0 = [] := hStanding.trail_zero
    rw [Tree.holder, hTrail, List.find?_singleton, hRoot] at hi
    cases hi

theorem taskOver_current : (current {}).1.tree.taskOver 0 = "" := by
  rw [Tree.taskOver, within_current.standing.trail_zero]
  rfl

end Assembly

/-- A tree is the parse tree of a build: below the root, which finished, it is laid out as the
forest, and nothing else was logged. -/
structure Tree.Parses (t : Tree) (f : Forest) (succeeded : Value) : Prop where
  wellFormed : t.WellFormed
  root : t.row 0 =
    some { kind := .build, name := .text "Build", finished := .bool true, succeeded }
  forest : ∃ is, t.LaidOut t.Tells "" 0 (t.branches 0) is f ∧ t.select Node.isLogged = 0 :: is

/-- When the build ends, the tree of a forest that was logged below the root is its parse tree. -/
theorem Assembly.Logs.parses {a : Assembly} {js is : List Nat} {f : Forest}
    (h : (current {}).1.Logs 0 [] js is f a) (e : Event) :
    (a.endBuild e).tree.Parses f e.succeeded := by
  have hStanding := h.within.standing
  have hKeeps := Tree.keeps_finishing e.succeeded
  have hTree : (a.endBuild e).tree = a.tree.change 0 (Tree.finishing e.succeeded) := by
    rw [endBuild, h.within.current]
    rfl
  have hMem := within_current.logged
  have hWf : (a.endBuild e).tree.WellFormed := by
    rw [hTree]
    exact Tree.wellFormed_change hKeeps hStanding.wellFormed 0
  have hNames : (a.endBuild e).tree.NamesText := by
    rw [hTree]
    exact Tree.namesText_change hKeeps hStanding.namesText 0
  refine ⟨hWf, ?_, is, ?_, ?_⟩
  · rw [hTree, Tree.row_change hKeeps, if_pos rfl, h.grows.row 0 hMem]
    rfl
  · have hBranches : (a.endBuild e).tree.branches 0 = js := by
      rw [hTree, Tree.branches_change hKeeps, h.grows.here]
      rfl
    have hLaid : (a.endBuild e).tree.LaidOut (a.endBuild e).tree.Stores "" 0 js is f := by
      have hLaid := h.laidOut
      rw [taskOver_current] at hLaid
      rw [hTree]
      refine hLaid.finish hStanding.wellFormed ?_ _
      intro i hi
      have := h.grows.lt_of_mem hMem hi
      omega
    rw [hBranches]
    refine hLaid.transport (fun _ _ => rfl) (fun _ _ => rfl) ?_
    intro i _ es hStores
    exact hStores.tells hWf hNames
  · rw [hTree, Tree.select_change hKeeps fun _ => rfl, h.grows.logged]
    rfl

/-- The events of a forest, between the start and the end of a build, come to the parse tree of the
forest, without fault. -/
theorem Processor.processAll_forest {p : Processor} (hIdle : p.assembly = some {})
    (started finished : Event) (hStarted : started.kind = .buildStarted)
    (hFinished : finished.kind = .buildFinished) (f : Forest)
    (hTextual : ∀ e ∈ f.events, e.Textual) :
    ∃ p' a, p.processAll (started :: (f.events ++ [finished])) = (p', none) ∧
      p'.assembly = some a ∧ a.tree.Parses f finished.succeeded := by
  obtain ⟨js, is, a, hLogs⟩ := Assembly.within_current.logs f hTextual
  have hStart : Assembly.step {} started = .ok (Assembly.current {}).1 := by
    rw [Assembly.step, hStarted]
  have hEnd : a.step finished = .ok (a.endBuild finished) := by
    rw [Assembly.step, hFinished]
  have hSteps : Assembly.steps {} (started :: (f.events ++ [finished])) =
      .ok (a.endBuild finished) := by
    rw [Assembly.steps, hStart]
    show (Assembly.current {}).1.steps (f.events ++ [finished]) = _
    rw [Assembly.steps_append hLogs.steps, Assembly.steps, hEnd]
    rfl
  obtain ⟨p', hAll, hAssembly, -⟩ := processAll_eq hIdle hSteps
  exact ⟨p', _, hAll, hAssembly, hLogs.parses finished⟩

/-- A project with a target inside that reports on it, builds another project and calls a
compiler. -/
def Forest.solution : Forest :=
  .block
    { part := .project
      opening :=
        { kind := .projectStarted, projectFile := .text "/p/a.csproj"
          properties := [("Platform", "x86")] }
      closing := { kind := .projectFinished, succeeded := .bool false }
      opening_kind := rfl
      closing_kind := rfl }
    (.block
      { part := .target
        opening := { kind := .targetStarted, targetName := .text "Build" }
        closing := { kind := .targetFinished, succeeded := .bool true }
        opening_kind := rfl
        closing_kind := rfl }
      (.message { kind := .warning, message := .text "old" } rfl
        (.data { kind := .status, properties := [("platform", "x64")] } rfl
          (.block
            { part := .project
              opening := { kind := .projectStarted, projectFile := .text "/p/b.csproj" }
              closing := { kind := .projectFinished, succeeded := .bool true }
              opening_kind := rfl
              closing_kind := rfl }
            (.data { kind := .custom, properties := [("Platform", "arm")] } rfl .nil)
            (.message { kind := .message, commandLine := .text "csc a.cs" } rfl .nil))))
      .nil)
    .nil

/-- The target stands behind the folder of the project around it, and the command line behind the
folder of the project inside. -/
theorem Processor.processAll_forest_solution :
    (idle "/" "/p/a.csproj" {} true []).assembly = some {} ∧
      (∀ e ∈ Forest.solution.events, e.Textual) ∧
      ∃ p' a, (idle "/" "/p/a.csproj" {} true []).processAll
          ({ kind := .buildStarted } :: (Forest.solution.events ++
            [{ kind := .buildFinished, succeeded := .bool true }])) = (p', none) ∧
        p'.assembly = some a ∧ a.tree.Parses Forest.solution (.bool true) ∧
        a.tree.branches 1 = [4] ∧ a.tree.branches 4 = [5, 6, 9] ∧
        a.tree.property (.int 1) (.text "PLATFORM") = .ok (.text "x64") := by
  have hTextual : ∀ e ∈ Forest.solution.events, e.Textual := by decide
  have hIdle : (idle "/" "/p/a.csproj" {} true []).assembly = some {} := rfl
  obtain ⟨p', a, hAll, hAssembly, hParses⟩ :=
    processAll_forest hIdle { kind := .buildStarted }
      { kind := .buildFinished, succeeded := .bool true } rfl rfl Forest.solution hTextual
  have hSeen : (p'.assembly.map fun a => (a.tree.branches 1, a.tree.branches 4,
      a.tree.property (.int 1) (.text "PLATFORM"))) =
        some ([4], [5, 6, 9], .ok (.text "x64")) := by
    have hRun := congrArg (·.1.assembly) hAll
    rw [← hRun]
    rfl
  rw [hAssembly, Option.map_some, Option.some.injEq, Prod.mk.injEq, Prod.mk.injEq] at hSeen
  exact ⟨hIdle, hTextual, p', a, hAll, hAssembly, hParses, hSeen⟩

end BuildDigest
