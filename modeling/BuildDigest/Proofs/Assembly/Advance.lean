import BuildDigest.Proofs.Assembly.Edits
import BuildDigest.Proofs.Assembly.Run

/-!
# What an event does to an assembly

An event edits the tree only at nodes that are open before it or come with it, and
only such nodes are open after it. A node is finished when it is closed, so what
stays open stays unfinished; the root alone is finished while it is open.

* `Assembly.Reaches` — the nodes at which an event may edit.
* `Assembly.Advances` — what an event can do.
* `Represents.advances` — every event of text fields does no more.
* `Represents.steps_induction` — what all that keeps is kept by any events.
-/

namespace BuildDigest

open Ledger (Call Entry Frame)

namespace Assembly

variable {a a₁ a' : Assembly} {l : Ledger} {i : Nat} {e : Event}

/-- A node is open, or not there yet. -/
def Reaches (a : Assembly) (j : Nat) : Prop :=
  j ∈ a.openNodes ∨ a.tree.size ≤ j

/-- A node below the root is open. -/
def Holds (a : Assembly) (j : Nat) : Prop :=
  j ∈ a.openNodes ∧ j ≠ 0

/-- What an event can make of an assembly. -/
structure Advances (a a' : Assembly) : Prop where
  edits : Tree.Edits a.Reaches a'.Holds a.tree a'.tree
  openNodes : ∀ j ∈ a'.openNodes, a.Reaches j

theorem Advances.refl (a : Assembly) : a.Advances a where
  edits := .refl
  openNodes _ hj := Or.inl hj

theorem Opened.isLogged (h : a.Opened i l) : a.tree.LoggedAt i :=
  h.tree.stacked.isLogged h.tree.standing

/-- What is open can be edited. -/
theorem Opened.reaches (h : a.Opened i l) {j : Nat} (hj : j ∈ i :: a.tree.trail i) :
    a.Reaches j := by
  refine Or.inl ?_
  rw [h.openNodes]
  exact hj

-- ---------------------------------------------------------------------------
-- The root
-- ---------------------------------------------------------------------------

/-- The root comes before anything else that an event does. -/
theorem Represents.advances_of_current (h : a.Represents l) (hCurrent : a.current = (a₁, i))
    (hAdvances : a₁.Advances a') : a.Advances a' := by
  rcases h with ⟨hNone, hEmpty, rfl⟩ | ⟨j, hOpened⟩
  · have hAll : ∀ j, a.Reaches j := fun j => by
      refine Or.inr ?_
      rw [hEmpty]
      exact Nat.zero_le j
    have hTree : a₁.tree = Tree.empty.add .null { kind := .build, name := .text "Build" } := by
      rw [Assembly.current, hNone, hEmpty] at hCurrent
      exact (congrArg (fun r => r.1.tree) hCurrent).symm
    have hRoot : Tree.Edit a.Reaches a'.Holds a.tree a₁.tree := by
      rw [hTree, hEmpty]
      exact .root rfl rfl ⟨_, rfl⟩
    exact ⟨.head hRoot (hAdvances.edits.mono fun j _ => hAll j), fun j _ => hAll j⟩
  · rw [hOpened.current] at hCurrent
    obtain ⟨rfl, -⟩ := Prod.mk.inj hCurrent
    exact hAdvances

-- ---------------------------------------------------------------------------
-- Single nodes
-- ---------------------------------------------------------------------------

/-- A node logged below the innermost open one is an edit at an open node. -/
theorem Opened.advances_add (h : a.Opened i l) {n : Node} (hLogged : n.kind.isFiling = false)
    (hBuild : n.kind ≠ .build) (hName : ∃ s, n.name = .text s)
    (hFinished : n.finished = .bool false) :
    a.Advances { a with tree := a.tree.add (.int i) n } where
  edits := .single (.log (h.reaches (List.mem_cons_self ..)) h.isLogged hLogged hBuild hName
    hFinished)
  openNodes _ hj := Or.inl hj

/-- A node opened below the innermost open one is an edit at an open node, and it is the one node
more that is open. -/
theorem Opened.advances_open (h : a.Opened i l) {n : Node} (hLogged : n.kind.isFiling = false)
    (hBuild : n.kind ≠ .build) (hName : ∃ s, n.name = .text s)
    (hFinished : n.finished = .bool false) :
    a.Advances { a with
      tree := a.tree.add (.int i) n
      openNodes := a.tree.size :: a.openNodes } where
  edits := .single (.log (h.reaches (List.mem_cons_self ..)) h.isLogged hLogged hBuild hName
    hFinished)
  openNodes := by
    rw [List.forall_mem_cons]
    exact ⟨Or.inr (Nat.le_refl _), fun j hj => Or.inl hj⟩

/-- What is reported on a project is filed by edits at this project: properties first, then items.
Nothing is opened or closed. -/
theorem addData_edits {O K : Nat → Prop} {j : Nat} (hWf : a.tree.WellFormed)
    (hNames : a.tree.NamesText) (hOpen : O j) (hProject : a.tree.isProjectAt j = true)
    (hData : a.addData j e = .ok a') :
    Tree.Edits O K a.tree a'.tree ∧ a'.openNodes = a.openNodes := by
  have hFirst : Tree.Edits O K a.tree _ :=
    Tree.edits_setProperties hWf hNames hOpen hProject e.propertiesValue
  have hj := Tree.lt_size_of_isProjectAt hProject
  have hProject₁ : (a.tree.setProperties (.int j) e.propertiesValue).1.isProjectAt j = true := by
    rw [(Tree.Edits.spares hFirst hWf (Nat.zero_lt_of_lt hj)).isProjectAt_eq hj, hProject]
  have hSecond : Tree.Edits O K _ _ := Tree.edits_addItems (Tree.Edits.wellFormed hFirst hWf)
    (Tree.Edits.namesText hFirst hNames) hOpen hProject₁ e.items
  unfold addData at hData
  split at hData
  · cases hData
  · next t₁ hSet =>
    rw [hSet] at hFirst hSecond
    split at hData
    · cases hData
    · next t₂ hAdd =>
      rw [hAdd] at hSecond
      cases hData
      exact ⟨hFirst.trans hSecond, rfl⟩

/-- What is reported on an open project. -/
theorem Opened.advances_data (h : a.Opened i l) {j : Nat} (hj : j ∈ i :: a.tree.trail i)
    (hProject : a.tree.isProjectAt j = true) (hData : a.addData j e = .ok a') :
    a.Advances a' := by
  obtain ⟨hEdits, hOpen⟩ := addData_edits h.tree.standing.wellFormed h.tree.standing.namesText
    (h.reaches hj) hProject hData
  refine ⟨hEdits, ?_⟩
  rw [hOpen]
  exact fun j hj => Or.inl hj

-- ---------------------------------------------------------------------------
-- Events
-- ---------------------------------------------------------------------------

/-- A part that starts, the root coming first if there is none. -/
theorem Represents.advances_openNode (h : a.Represents l) {n : Node}
    (hLogged : n.kind.isFiling = false) (hBuild : n.kind ≠ .build) (hName : ∃ s, n.name = .text s)
    (hFinished : n.finished = .bool false) : a.Advances (a.openNode n).1 := by
  obtain ⟨a₁, i, hCurrent, hOpened⟩ := h.current
  rw [openNode_eq hCurrent]
  exact h.advances_of_current hCurrent (hOpened.advances_open hLogged hBuild hName hFinished)

theorem Represents.advances_addNode (h : a.Represents l) {n : Node}
    (hLogged : n.kind.isFiling = false) (hBuild : n.kind ≠ .build) (hName : ∃ s, n.name = .text s)
    (hFinished : n.finished = .bool false) : a.Advances (a.addNode n) := by
  obtain ⟨a₁, i, hCurrent, hOpened⟩ := h.current
  rw [Assembly.addNode, hCurrent]
  exact h.advances_of_current hCurrent (hOpened.advances_add hLogged hBuild hName hFinished)

/-- A project that starts, with what its event reports on it. The report is filed at the project
that has just come. -/
theorem Represents.advances_startProject (h : a.Represents l) (hFile : e.projectFile.IsTextual)
    (hStep : a.startProject e = .ok a') : a.Advances a' := by
  obtain ⟨a₁, i, hCurrent, hOpened⟩ := h.current
  have hText : e.projectFile.orEmpty.asText .replace = .ok e.projectFile.plain := by
    rw [hFile.orEmpty_plain]
    rfl
  simp only [Assembly.startProject, hText, openNode_eq hCurrent] at hStep
  refine h.advances_of_current hCurrent ?_
  have hOther : (projectNode e.projectFile.plain).kind ≠ .build := by rintro ⟨⟩
  have hOpen := hOpened.advances_open (n := projectNode e.projectFile.plain) rfl hOther ⟨_, rfl⟩ rfl
  -- the report goes to the project that has just come
  have hWf := Tree.wellFormed_add hOpened.tree.standing.wellFormed hOpened.tree.standing.isOpen
    (projectNode e.projectFile.plain)
  have hNames := Tree.namesText_add hOpened.tree.standing.namesText (.int i)
    (n := projectNode e.projectFile.plain) ⟨_, rfl⟩
  have hProject : (a₁.tree.add (.int i) (projectNode e.projectFile.plain)).isProjectAt
      a₁.tree.size = true := by
    rw [Tree.isProjectAt, Tree.row_add_size]
    rfl
  have hNew : a₁.Reaches a₁.tree.size := Or.inr (Nat.le_refl _)
  obtain ⟨hData, hSame⟩ := addData_edits
    (a := { a₁ with
      tree := a₁.tree.add (.int i) (projectNode e.projectFile.plain)
      openNodes := a₁.tree.size :: a₁.openNodes })
    hWf hNames hNew hProject hStep
  refine ⟨.head (.log (n := projectNode e.projectFile.plain) ?_ hOpened.isLogged rfl hOther
    ⟨_, rfl⟩ rfl) hData, ?_⟩
  · exact hOpened.reaches (List.mem_cons_self ..)
  · rw [hSame]
    exact hOpen.openNodes

/-- A part that finishes. Only the nodes above it stay open, and they are older. -/
theorem Represents.advances_closeNode (h : a.Represents l) (e : Event) :
    a.Advances (a.closeNode e) := by
  rcases h with ⟨hNone, -, -⟩ | ⟨i, hOpened⟩
  · rw [Assembly.closeNode, hNone]
    exact Advances.refl a
  · have hWf := hOpened.tree.standing.wellFormed
    cases hParent : a.tree.parent? i with
    | none =>
      rw [Assembly.closeNode, hOpened.openNodes, Tree.trail_eq_nil hParent]
      exact Advances.refl a
    | some p =>
      have hTrail := hWf.trail_eq_cons hParent
      rw [Assembly.closeNode, hOpened.openNodes, hTrail]
      refine ⟨.single (.finish e.succeeded (hOpened.reaches (List.mem_cons_self ..))
        hOpened.isLogged ?_), ?_⟩
      · -- the nodes that stay open stand before the one that is closed
        rintro ⟨hMem, -⟩
        have hMem : i ∈ a.tree.trail i := hTrail ▸ hMem
        exact Nat.lt_irrefl i (hWf.lt_of_mem_trail hMem)
      · intro j hj
        refine hOpened.reaches (List.mem_cons_of_mem i ?_)
        rw [hTrail]
        exact hj

/-- The end of the build finishes the root, and the root alone stays open. -/
theorem Represents.advances_endBuild (h : a.Represents l) (e : Event) :
    a.Advances (a.endBuild e) := by
  obtain ⟨a₁, i, hCurrent, hOpened⟩ := h.current
  have hRoot : a₁.Reaches 0 := by
    apply hOpened.reaches
    rcases Nat.eq_zero_or_pos i with rfl | hPos
    · exact List.mem_cons_self ..
    · exact List.mem_cons_of_mem i
        (hOpened.tree.standing.root_mem_trail hPos hOpened.tree.standing.isOpen)
  have hLogged : a₁.tree.LoggedAt 0 := by
    obtain ⟨n, hRow, hKind⟩ := hOpened.tree.standing.root
    exact ⟨n, hRow, by rw [hKind]; rfl⟩
  rw [Assembly.endBuild, hCurrent]
  refine h.advances_of_current hCurrent ⟨.single (.finish e.succeeded hRoot hLogged ?_), ?_⟩
  · rintro ⟨-, hZero⟩
    exact hZero rfl
  · intro j hj
    rw [List.mem_singleton.mp hj]
    exact hRoot

/-- A message is one node below the innermost open one, a command line or another. -/
theorem Represents.advances_addMessage (h : a.Represents l) (hTextual : e.Textual)
    (hStep : a.addMessage e = .ok a') : a.Advances a' := by
  cases hLine : e.isCommandLine with
  | false =>
    rw [Assembly.addMessage, hLine] at hStep
    cases hStep
    exact h.advances_addNode rfl (by rintro ⟨⟩) ⟨_, rfl⟩ rfl
  | true =>
    obtain ⟨a₁, i, hCurrent, hOpened⟩ := h.current
    obtain ⟨task, hEnclosing, hTask⟩ := hOpened.tree.stacked.enclosing_task hOpened.tree.standing
    have hName := hTextual.taskName.orElse_eq (Ledger.openTask l.frames)
    rw [Assembly.addMessage, hLine, if_pos rfl, hCurrent] at hStep
    simp only [hEnclosing, hTask, hName] at hStep
    cases hStep
    exact h.advances_of_current hCurrent
      (hOpened.represents.advances_addNode rfl (by rintro ⟨⟩) ⟨_, rfl⟩ rfl)

/-- Late data goes to the innermost open project, if it goes anywhere. -/
theorem Represents.advances_addLate (h : a.Represents l) (hStep : a.addLate e = .ok a') :
    a.Advances a' := by
  unfold Assembly.addLate at hStep
  split at hStep
  · cases hStep
    exact Advances.refl a
  · obtain ⟨a₁, i, hCurrent, hOpened⟩ := h.current
    have hStanding := hOpened.tree.standing
    rw [hCurrent] at hStep
    simp only [hStanding.wellFormed.enclosing_eq_find? hStanding.isOpen] at hStep
    refine h.advances_of_current hCurrent ?_
    cases hFind : (a₁.tree.nodesAt (i :: a₁.tree.trail i)).find? (·.kind = .project) with
    | none =>
      simp only [hFind] at hStep
      cases hStep
      exact Advances.refl _
    | some n =>
      -- the project that is found is open
      simp only [hFind] at hStep
      obtain ⟨j, hj, hn⟩ := List.mem_filterMap.mp (List.mem_of_find?_eq_some hFind)
      have hProject : a₁.tree.isProjectAt j = true := by
        have hKind : n.kind = .project := by simpa using List.find?_some hFind
        rw [Tree.isProjectAt, Tree.row, hn]
        exact decide_eq_true hKind
      rw [hStanding.wellFormed.index_of_nodes hn] at hStep
      exact hOpened.advances_data hj hProject hStep

/-- An event edits at open nodes and at those that come with it. -/
theorem Represents.advances (h : a.Represents l) (hTextual : e.Textual)
    (hStep : a.step e = .ok a') : a.Advances a' := by
  unfold Assembly.step at hStep
  cases hKind : e.kind with
  | buildStarted =>
    rw [hKind] at hStep
    cases hStep
    obtain ⟨a₁, i, hCurrent, -⟩ := h.current
    rw [hCurrent]
    exact h.advances_of_current hCurrent (Advances.refl a₁)
  | buildFinished =>
    rw [hKind] at hStep
    cases hStep
    exact h.advances_endBuild e
  | projectStarted =>
    rw [hKind] at hStep
    exact h.advances_startProject hTextual.projectFile hStep
  | targetStarted =>
    rw [hKind] at hStep
    cases hStep
    exact h.advances_openNode rfl nofun ⟨_, hTextual.targetName.orEmpty_plain⟩ rfl
  | taskStarted =>
    rw [hKind] at hStep
    cases hStep
    exact h.advances_openNode rfl nofun ⟨_, hTextual.taskName.orEmpty_plain⟩ rfl
  | projectFinished | targetFinished | taskFinished =>
    rw [hKind] at hStep
    cases hStep
    exact h.advances_closeNode e
  | message | warning | error =>
    rw [hKind] at hStep
    exact h.advances_addMessage hTextual hStep
  | custom | status =>
    rw [hKind] at hStep
    exact h.advances_addLate hStep

/-- What holds of an assembly and is kept by all that an event can do holds after any events. -/
theorem Represents.steps_induction {motive : Assembly → Prop} (h : a.Represents l)
    {events : List Event} (hTextual : ∀ e ∈ events, e.Textual) (hSteps : a.steps events = .ok a')
    (hStart : motive a)
    (hNext : ∀ (b b' : Assembly) (l : Ledger),
      b.Represents l → b.Advances b' → motive b → motive b') :
    motive a' := by
  induction events generalizing a l with
  | nil =>
    cases hSteps
    exact hStart
  | cons e rest ih =>
    rw [List.forall_mem_cons] at hTextual
    obtain ⟨a₁, hStep, h₁⟩ := h.step hTextual.1
    rw [Assembly.steps, hStep] at hSteps
    exact ih h₁ hTextual.2 hSteps (hNext a a₁ l h (h.advances hTextual.1 hStep) hStart)

end Assembly

end BuildDigest
